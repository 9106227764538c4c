import AureliaPeering.Peer.Pools
import AureliaPeering.Store.Carriers

/-!
The messages on a callis that ends.

A message on a callis is attended as long as the callis is in the pool, a sweep for it is pending,
or its connection has not been reported yet.  A transmitter may claim after its handle has left the
pool, and then nothing takes the message off the callis again.
-/

namespace AureliaPeering.Peer

open Collections Store List Option

instance (state : LaneState) (callisId : CallisId) : Decidable (state.Carries callisId) :=
  inferInstanceAs (Decidable (∃ slot ∈ state.slots, slot.state.carrier = some callisId))

theorem carries_iff (store : RetainedStore) (callisId : CallisId) :
    store.Carries callisId ↔
      (store.lane .a2).Carries callisId ∨ (store.lane .a3).Carries callisId := by
  constructor
  · rintro ⟨lane, messages, inLane⟩
    cases lane with
    | a1Ack | a1Error => cases messages
    | a2 => exact .inl inLane
    | a3 => exact .inr inLane
  · rintro (inLane | inLane)
    · exact ⟨.a2, rfl, inLane⟩
    · exact ⟨.a3, rfl, inLane⟩

instance (store : RetainedStore) (callisId : CallisId) : Decidable (store.Carries callisId) :=
  decidable_of_iff _ (carries_iff store callisId).symm

/-- The store keeps its invariant, and no callis takes a message. -/
structure Calm (before after : RetainedStore) : Prop where
  invariant : after.Invariant
  carries : ∀ id, after.Carries id → before.Carries id

theorem calm_refl {store : RetainedStore} (inv : store.Invariant) : Calm store store :=
  ⟨inv, fun _ carries => carries⟩

theorem calm_of_step {store next : RetainedStore} {op : Op} {output : Output}
    (inv : store.Invariant) (ordered : op.Ordered store)
    (performed : Store.step store op = .ok (output, next)) (calm : ∀ id, op ≠ .claimNext id) :
    Calm store next := by
  refine ⟨(@step_invariant _ _ (op, output) inv ⟨ordered, performed⟩).1, fun id carries => ?_⟩
  rcases carries_of_step inv performed carries with old | claimed
  · exact old
  · exact absurd claimed (calm id)

section Failing

variable {store : RetainedStore} (inv : store.Invariant) (error : AureliaError)
  {order : List SlotId} (ordered : store.tracked.ValueOrder order)

include inv ordered

theorem calm_failAll : Calm store (store.failAll error order).2 :=
  calm_of_step inv (show (Op.failAll error order).Ordered store from ordered) rfl (by simp)

theorem calm_failNonA1 : Calm store (store.failNonA1 error order).2 :=
  calm_of_step inv (show (Op.failNonA1 error order).Ordered store from ordered) rfl (by simp)

theorem calm_beginShutdown : Calm store (store.beginShutdown error order).2 :=
  calm_of_step inv (show (Op.beginShutdown error order).Ordered store from ordered) rfl (by simp)

end Failing

theorem StoreMark.calm_apply {store : RetainedStore} (inv : store.Invariant) (mark : StoreMark) :
    Calm store (mark.apply store) := by
  cases mark with
  | callisReplayReady callisId =>
    exact @calm_of_step _ _ (.markCallisReplayReady callisId) .none inv trivial rfl (by simp)
  | trackedReplayReady peerMsgIds =>
    exact @calm_of_step _ _ (.markTrackedReplayReady peerMsgIds) .none inv trivial rfl (by simp)

namespace PeerContext

variable {ctx : PeerContext} {order : List SlotId} {id : CallisId}

theorem calm_executeUpdate (inv : ctx.store.Invariant)
    (update : PeerStateUpdate) (inputs : DialInputs)
    (ordered : ctx.store.tracked.ValueOrder order) :
    Calm ctx.store (ctx.executeUpdate update inputs order).store := by
  cases ctx.calls inputs update with
  | connected kind info =>
    cases kind with
    | primary =>
      unfold executeUpdate execute executeConnectedPrimary
      dsimp only
      split
      · exact calm_refl inv
      · split
        · exact calm_failAll inv (.new .peerRestarted) ordered
        · exact calm_refl inv
    | blob =>
      unfold executeUpdate execute executeConnectedBlob
      dsimp only
      split
      · exact calm_refl inv
      · split <;> exact calm_refl inv
  | gracefulClose =>
    unfold executeUpdate execute executeGracefulClose
    dsimp only
    split
    · exact calm_refl inv
    · exact calm_beginShutdown inv (.new .peerUnavailable) ordered
  | decides _ _ _ _ _ removes redials =>
    rw [executeUpdate, (redials order).store, removes.store]
    exact calm_refl inv

/-- A callis in the pool stays there or is to be swept, unless every message has failed. -/
theorem kept_executeUpdate (inv : ctx.store.Invariant)
    (update : PeerStateUpdate) (inputs : DialInputs)
    (ordered : ctx.store.tracked.ValueOrder order)
    (listed : id ∈ ctx.primaryIds)
    (carries : (ctx.executeUpdate update inputs order).store.Carries id) :
    id ∈ (ctx.executeUpdate update inputs order).primaryIds ∨
      .callisReplayReady id ∈ (ctx.executeUpdate update inputs order).agenda := by
  obtain ⟨held, isHeld, rfl⟩ := mem_map.mp listed
  cases ctx.calls inputs update with
  | connected kind info =>
    cases kind with
    | primary =>
      unfold executeUpdate execute executeConnectedPrimary at carries ⊢
      dsimp only at carries ⊢
      split
      · exact .inl (by simpa [primaryIds] using listed)
      · rename_i accepted
        split
        · rename_i fresh
          rw [if_neg accepted, if_pos fresh] at carries
          exact absurd carries
            (RetainedStore.not_carries_failAll inv (.new .peerRestarted) ordered)
        · exact .inl (mem_map.mpr ⟨held, mem_append_left _ (by simpa using isHeld), rfl⟩)
    | blob =>
      refine .inl ?_
      unfold executeUpdate execute executeConnectedBlob
      dsimp only
      split
      · simpa [primaryIds] using listed
      · split <;> simpa [primaryIds] using listed
  | gracefulClose =>
    refine .inl ?_
    unfold executeUpdate execute executeGracefulClose
    dsimp only
    split <;> simpa [primaryIds] using listed
  | decides _ _ _ _ _ removes redials =>
    rw [executeUpdate, primaryIds, (redials order).primary, (redials order).agenda]
    exact (removes.kept held isHeld).imp_left mem_map_of_mem

/-- A new primary callis is refused while the peer or its session closes. -/
def refuses (ctx : PeerContext) : Bool := ctx.state.closing || ctx.sessionClosing

theorem mem_executeConnectedPrimary (accepts : ctx.refuses = false)
    (info : ConnectionInfo) (order : List SlotId) :
    info.handle.id ∈ (ctx.executeConnectedPrimary info order).1.primaryIds := by
  unfold refuses at accepts
  simp [executeConnectedPrimary, PeerStateMachine.connectedPrimary, accepts, primaryIds]

end PeerContext

namespace PeerRun

def Unreported (run : PeerRun) (id : CallisId) : Prop :=
  ∃ task, run.tasks.lookup id = some task ∧ task.kind = .primary ∧ task.connected = false

/-- What takes a message off the callis again. -/
def Attends (run : PeerRun) (id : CallisId) : Prop :=
  id ∈ run.ctx.primaryIds ∨ .callisReplayReady id ∈ run.ctx.agenda ∨ run.Unreported id

structure Attended (run : PeerRun) : Prop where
  pooled : run.Pooled False
  store : run.ctx.store.Invariant
  reported : ∀ id task, run.tasks.lookup id = some task → task.kind = .primary →
    task.closed = true → task.connected = true
  attends : ∀ id, run.ctx.store.Carries id → run.Attends id

/-- A callis claims only while it is attended, its end is reported after its connection, and a
callis that is refused has claimed nothing. -/
def ClaimsAttended (run : PeerRun) : PeerLabel → Prop
  | .claim id =>
    id ∈ run.ctx.primaryIds ∨ .callisReplayReady id ∈ run.ctx.agenda ∨
      (run.tasks.lookup id).any (fun task => !task.connected) = true
  | .update (.connectionClosed .primary id) _ _ _ =>
    (run.tasks.lookup id).all (·.connected) = true
  | .update (.connected .primary info) _ _ _ =>
    run.ctx.refuses = true → ¬run.ctx.store.Carries info.handle.id
  | _ => True

section Attended

variable {run next : PeerRun}

instance (label : PeerLabel) : Decidable (run.ClaimsAttended label) := by
  unfold ClaimsAttended
  split <;> infer_instance

variable {id : CallisId} {ctx : PeerContext} {changed : CallisTask} {inputs : DialInputs}
  {order : List SlotId} {now : Instant} {kind : CallisKind} {info : ConnectionInfo}
  {tasks : HashMap CallisId CallisTask}

theorem Unreported.insert {other : CallisId}
    (unreported : run.Unreported other)
    (kept : other = id → changed.kind = .primary ∧ changed.connected = false) :
    Unreported ⟨ctx, run.tasks.insert id changed⟩ other := by
  obtain ⟨task, found, isUnreported⟩ := unreported
  by_cases same : other = id
  · exact ⟨changed, by rw [same]; exact AList.lookup_insert _, kept same⟩
  · exact ⟨task, by simp [same, found], isUnreported⟩

section Kept

variable (attended : run.Attended)

include attended

theorem Attended.reported_insert
    (inOrder : changed.kind = .primary → changed.closed = true → changed.connected = true)
    (other : CallisId) (task : CallisTask)
    (found : (run.tasks.insert id changed).lookup other = some task) (kind : task.kind = .primary)
    (closed : task.closed = true) : task.connected = true := by
  rw [HashMap.lookup_insert_eq] at found
  split at found
  · cases found
    exact inOrder kind closed
  · exact attended.reported other task found kind closed

/-- A step that only changes the store, without a new message on a callis. -/
theorem Attended.of_calm
    (pooled : Pooled False ⟨ctx, run.tasks⟩) (calm : Calm run.ctx.store ctx.store)
    (kept : ∀ id, ctx.store.Carries id →
      id ∈ run.ctx.primaryIds ∨ .callisReplayReady id ∈ run.ctx.agenda →
      id ∈ ctx.primaryIds ∨ .callisReplayReady id ∈ ctx.agenda) :
    Attended ⟨ctx, run.tasks⟩ := by
  refine ⟨pooled, calm.invariant, attended.reported, fun id carries => ?_⟩
  rcases attended.attends id (calm.carries id carries) with listed | pending | unreported
  · exact or_assoc.mp (.inl (kept id carries (.inl listed)))
  · exact or_assoc.mp (.inl (kept id carries (.inr pending)))
  · exact .inr (.inr unreported)

theorem Attended.of_task {task : CallisTask}
    {store : RetainedStore} (pooled : Pooled False ⟨{ run.ctx with store },
      run.tasks.insert id changed⟩)
    (found : run.tasks.lookup id = some task) (kind : changed.kind = task.kind)
    (connected : changed.connected = task.connected) (closed : changed.closed = task.closed)
    (invariant : store.Invariant)
    (carries : ∀ other, store.Carries other → run.Attends other) :
    Attended ⟨{ run.ctx with store }, run.tasks.insert id changed⟩ := by
  refine ⟨pooled, invariant, attended.reported_insert ?_, fun other carried => ?_⟩
  · rw [kind, connected, closed]
    exact attended.reported id task found
  · rcases carries other carried with listed | pending | unreported
    · exact .inl listed
    · exact .inr (.inl pending)
    · refine .inr (.inr (unreported.insert ?_))
      rintro rfl
      obtain ⟨_, isHeld, _⟩ := unreported
      cases isHeld.symm.trans found
      rwa [kind, connected]

/-- An update, which takes a message off a callis in the pool or has it swept. -/
theorem Attended.executed {update : PeerStateUpdate} (idle : run.ctx.agenda = [])
    (ordered : run.ctx.store.tracked.ValueOrder order)
    (pooled : Pooled False
      ⟨(run.ctx.executeUpdate update inputs order).updateImpairedSince now, tasks⟩)
    (reported : ∀ id task, tasks.lookup id = some task → task.kind = .primary →
      task.closed = true → task.connected = true)
    (kept : ∀ id, run.ctx.store.Carries id → run.Unreported id →
      id ∈ (run.ctx.executeUpdate update inputs order).primaryIds ∨
        Unreported ⟨run.ctx, tasks⟩ id) :
    Attended ⟨(run.ctx.executeUpdate update inputs order).updateImpairedSince now, tasks⟩ := by
  have calm := PeerContext.calm_executeUpdate attended.store update inputs ordered
  refine ⟨pooled, calm.invariant, reported, fun id carries => ?_⟩
  have before := calm.carries id carries
  rcases attended.attends id before with listed | pending | unreported
  · exact or_assoc.mp (.inl
      (PeerContext.kept_executeUpdate attended.store update inputs ordered listed carries))
  · rw [idle] at pending
    cases pending
  · exact (kept id before unreported).imp_right .inr

theorem Attended.connected (idle : run.ctx.agenda = [])
    (ordered : run.ctx.store.tracked.ValueOrder order)
    (reported : run.report (.connected kind info) = some tasks)
    (refused : kind = .primary → run.ctx.refuses = true →
      ¬run.ctx.store.Carries info.handle.id)
    (pooled : Pooled False ⟨(run.ctx.executeUpdate (.connected kind info) inputs
      order).updateImpairedSince now, tasks⟩) :
    Attended ⟨(run.ctx.executeUpdate (.connected kind info) inputs order).updateImpairedSince now,
      tasks⟩ := by
  obtain ⟨_, found, allowed⟩ := bind_eq_some_iff.mp reported
  obtain ⟨⟨isKind, _⟩, ⟨⟩⟩ := ite_none_right_eq_some.mp allowed
  refine attended.executed idle ordered pooled (attended.reported_insert fun _ _ => rfl)
    fun id carries unreported => ?_
  by_cases same : id = info.handle.id
  · -- The callis enters the pool, for it would be refused without a message.
    subst same
    obtain ⟨_, isHeld, isPrimary, _⟩ := unreported
    cases isHeld.symm.trans found
    obtain rfl : kind = .primary := isKind.symm.trans isPrimary
    have accepts : run.ctx.refuses = false := by
      by_contra refuses
      exact refused rfl (by simpa using refuses) carries
    exact .inl (PeerContext.mem_executeConnectedPrimary accepts info order)
  · exact .inr (unreported.insert fun isSame => absurd isSame same)

theorem Attended.connectionClosed (idle : run.ctx.agenda = [])
    (ordered : run.ctx.store.tracked.ValueOrder order)
    (reported : run.report (.connectionClosed kind id) = some tasks)
    (late : kind = .primary → (run.tasks.lookup id).all (·.connected) = true)
    (pooled : Pooled False ⟨(run.ctx.executeUpdate (.connectionClosed kind id) inputs
      order).updateImpairedSince now, tasks⟩) :
    Attended ⟨(run.ctx.executeUpdate (.connectionClosed kind id) inputs order).updateImpairedSince
      now, tasks⟩ := by
  obtain ⟨task, found, allowed⟩ := bind_eq_some_iff.mp reported
  obtain ⟨⟨isKind, _⟩, ⟨⟩⟩ := ite_none_right_eq_some.mp allowed
  have connected (isPrimary : task.kind = .primary) : task.connected = true := by
    simpa [found] using late (isKind.symm.trans isPrimary)
  refine attended.executed idle ordered pooled
    (attended.reported_insert fun isPrimary _ => connected isPrimary)
    fun other _ unreported => .inr (unreported.insert ?_)
  rintro rfl
  obtain ⟨_, isHeld, isPrimary, unconnected⟩ := unreported
  cases isHeld.symm.trans found
  cases (connected isPrimary).symm.trans unconnected

theorem Attended.unclosed
    (reported : run.report (.connected .primary info) = some tasks) :
    (run.tasks.lookup info.handle.id).all (fun task => !task.closed) = true := by
  obtain ⟨task, found, allowed⟩ := bind_eq_some_iff.mp reported
  obtain ⟨⟨isPrimary, unconnected⟩, _⟩ := ite_none_right_eq_some.mp allowed
  have unclosed : task.closed = false := by
    by_contra closed
    have connected := attended.reported _ task found isPrimary (by simpa using closed)
    cases unconnected.symm.trans connected
  simp [found, unclosed]

theorem Attended.step {label : PeerLabel}
    (stepped : run.step label = some next) (orderly : run.ClaimsAttended label) :
    next.Attended := by
  have pooled : next.Pooled False := by
    refine attended.pooled.step stepped ?_
    rintro kind info inputs order now rfl (rfl | impossible)
    · obtain ⟨_, taken⟩ := ite_none_right_eq_some.mp stepped
      obtain ⟨tasks, reported, _⟩ := map_eq_some_iff.mp taken
      exact attended.unclosed reported
    · exact impossible.elim
  cases label with
  | spawn kind id =>
    obtain ⟨fresh, ⟨⟩⟩ := ite_none_left_eq_some.mp stepped
    refine ⟨pooled, attended.store, attended.reported_insert nofun, fun other carries => ?_⟩
    rcases attended.attends other carries with listed | pending | unreported
    · exact .inl listed
    · exact .inr (.inl pending)
    · refine .inr (.inr (unreported.insert ?_))
      rintro rfl
      obtain ⟨task, found, _⟩ := unreported
      simp [found] at fresh
  | claim id =>
    obtain ⟨task, found, allowed⟩ := bind_eq_some_iff.mp stepped
    obtain ⟨⟨_, isPrimary, _⟩, ⟨⟩⟩ := ite_none_right_eq_some.mp allowed
    have inv := (@step_invariant _ _ (.claimNext id, _) attended.store ⟨trivial, rfl⟩).1
    have claimed {other : CallisId} (carries : (run.ctx.store.claimNext id).2.Carries other) :
        run.ctx.store.Carries other ∨ other = id := carries.of_claimLanes
    refine attended.of_task pooled found rfl rfl rfl inv fun other carries => ?_
    rcases claimed carries with old | rfl
    · exact attended.attends other old
    · rcases orderly with listed | pending | unconnected
      · exact .inl listed
      · exact .inr (.inl pending)
      · exact .inr (.inr ⟨task, found, isPrimary, by simpa [found] using unconnected⟩)
  | complete id result =>
    obtain ⟨task, found, claimed⟩ := bind_eq_some_iff.mp stepped
    obtain ⟨claim, _, rfl⟩ := map_eq_some_iff.mp claimed
    have inv := (@step_invariant _ _ (.completeWrite claim result, _) attended.store
      ⟨trivial, rfl⟩).1
    exact attended.of_task pooled found rfl rfl rfl inv fun other carries =>
      attended.attends other carries.of_completeWrite
  | finish id =>
    obtain ⟨task, found, allowed⟩ := bind_eq_some_iff.mp stepped
    obtain ⟨_, ⟨⟩⟩ := ite_none_right_eq_some.mp allowed
    exact attended.of_task pooled found rfl rfl rfl attended.store attended.attends
  | storeOp op =>
    obtain ⟨⟨outside, ordered⟩, performed⟩ := ite_none_right_eq_some.mp stepped
    obtain ⟨⟨output, store⟩, isOk, rfl⟩ := map_eq_some_iff.mp performed
    have isStep : Store.step run.ctx.store op = .ok (output, store) := by
      revert isOk
      cases Store.step run.ctx.store op <;> simp [Except.toOption]
    refine attended.of_calm pooled (calm_of_step attended.store ordered isStep ?_)
      fun _ _ kept => kept
    rintro id rfl
    cases outside
  | update update inputs order now =>
    obtain ⟨⟨idle, ordered⟩, taken⟩ := ite_none_right_eq_some.mp stepped
    obtain ⟨tasks, reported, rfl⟩ := map_eq_some_iff.mp taken
    cases update with
    | connected kind info =>
      refine attended.connected idle ordered reported ?_ pooled
      rintro rfl
      exact orderly
    | connectionClosed kind id =>
      refine attended.connectionClosed idle ordered reported ?_ pooled
      rintro rfl
      exact orderly
    | _ =>
      cases reported
      exact attended.executed idle ordered pooled attended.reported fun _ _ => .inr
  | mark =>
    simp only [PeerRun.step] at stepped
    split at stepped
    · cases stepped
    · rename_i mark agenda isAgenda
      cases stepped
      refine attended.of_calm pooled (mark.calm_apply attended.store) fun id carries kept => ?_
      rcases kept with listed | pending
      · exact .inl listed
      · rw [isAgenda] at pending
        rcases mem_cons.mp pending with rfl | rest
        · exact absurd carries (RetainedStore.not_carries_markCallisReplayReady attended.store)
        · exact .inr rest
  | teardown order now =>
    obtain ⟨⟨idle, impaired, ordered⟩, ⟨⟩⟩ := ite_none_right_eq_some.mp stepped
    refine attended.of_calm pooled (calm_failNonA1 attended.store (.new .peerUnavailable) ordered)
      fun id carries kept => ?_
    rcases kept with listed | pending
    · have empty : run.ctx.state.primary = [] := by
        simp only [PeerContext.impaired, Bool.and_eq_true, List.isEmpty_iff] at impaired
        exact impaired.1.2
      simp [PeerContext.primaryIds, empty] at listed
    · exact .inr pending
  | drainCallis =>
    obtain ⟨_, ⟨⟩⟩ := ite_none_right_eq_some.mp stepped
    exact attended.of_calm pooled (calm_refl attended.store) fun _ _ kept => kept
  | selectCallis | beginClose =>
    cases stepped
    exact attended.of_calm pooled (calm_refl attended.store) fun _ _ kept => kept

end Kept

theorem reachable_attended {capacities : RetainedCapacities}
    (reached : ((system capacities now).restrict ClaimsAttended).Reachable run) :
    run.Attended := by
  refine reached.invariant ?_ ?_
  · rintro _ rfl
    have inv := new_invariant capacities now
    refine ⟨pooled_new capacities now, inv, ?_, ?_⟩
    · intro id task found
      simp [PeerRun.new] at found
    · rintro id ⟨lane, _, slot, listed, isCarrier⟩
      obtain rfl : slot = RetainedSlot.empty now := by
        cases lane <;> exact eq_of_mem_replicate listed
      cases isCarrier
  · rintro _ _ _ attended ⟨stepped, orderly⟩
    exact attended.step stepped orderly

end Attended

/-- Once the end of a primary callis has been processed, with its sweep, no message is on the
callis, and a message on no callis can be claimed by any other. -/
theorem closed_callis_carries_nothing {capacities : RetainedCapacities} {now : Instant}
    {run : PeerRun} (reached : ((system capacities now).restrict ClaimsAttended).Reachable run)
    {id : CallisId} {task : CallisTask} (found : run.tasks.lookup id = some task)
    (primary : task.kind = .primary) (closed : task.closed = true)
    (swept : .callisReplayReady id ∉ run.ctx.agenda) {slotId : SlotId} {slot : RetainedSlot}
    {outbound : TrackedOutbound} (stored : run.ctx.store.slot slotId = some slot)
    (isTracked : slot.item = some (.tracked outbound)) :
    slot.state ≠ .writing id ∧ slot.state ≠ .inflight id ∧
      (slot.state.carrier = none → run.ctx.store.Open slotId.lane → ∀ other,
        ∃ count, ∃ claim ∈ RetainedStore.claims other count run.ctx.store,
          claim.slot = slotId ∧ slot.identity = some claim.identity) := by
  have attended := reachable_attended reached
  have dead : ¬run.Attends id := by
    have connected := attended.reported id task found primary closed
    rintro (listed | pending | ⟨same, isSame, _, unconnected⟩)
    · obtain ⟨same, isSame, _, _, unclosed⟩ := attended.pooled.primary id listed
      cases isSame.symm.trans found
      cases closed.symm.trans unclosed
    · exact swept pending
    · cases isSame.symm.trans found
      cases connected.symm.trans unconnected
  have uncarried : slot.state.carrier ≠ some id := fun isCarrier =>
    dead (attended.attends id
      (RetainedStore.carries_of_tracked attended.store stored isTracked isCarrier))
  refine ⟨?_, ?_, fun idle opened other => ?_⟩
  · intro isState
    exact uncarried (by rw [isState]; rfl)
  · intro isState
    exact uncarried (by rw [isState]; rfl)
  · have sane := (attended.store.lanes slotId.lane).slot_of_getElem? stored
    rcases state_cases sane isTracked with ⟨_, claimable⟩ | ⟨holder, isState⟩ |
      ⟨holder, isState⟩
    · exact RetainedStore.exists_claim attended.store stored claimable opened other
    · rw [isState] at idle
      cases idle
    · rw [isState] at idle
      cases idle

def sentLabels (id : CallisId) : List PeerLabel :=
  [.storeOp (.insertTracked ⟨⟨7, 1, 2, a3MessageTypeBase, 0, []⟩, 0⟩ 10 0), .claim id,
    .complete id (.ok ())]

theorem closed_callis_carries_nothing_sent :
    ∃ run task slot outbound,
      ((system ⟨1, 1, 1, 1⟩ 0).restrict ClaimsAttended).Reachable run ∧
      run.tasks.lookup 1 = some task ∧ task.closed = true ∧
      run.ctx.store.slot ⟨.a3, 0⟩ = some slot ∧ slot.item = some (.tracked outbound) ∧
      slot.state ≠ .writing 1 ∧ slot.state ≠ .inflight 1 := by
  obtain ⟨run, reached, present, idle, holds⟩ :
      ∃ run, ((system ⟨1, 1, 1, 1⟩ 0).restrict ClaimsAttended).Reachable run ∧
        (run.tasks.lookup 1).any (fun task => decide (task.kind = .primary) && task.closed) = true ∧
        run.ctx.agenda = [] ∧ (run.ctx.store.slot ⟨.a3, 0⟩).any (fun slot =>
          slot.item.any (·.isTracked)) = true :=
    Machine.System.exists_guarded ([.spawn .primary 1,
      .update (.connected .primary (connectedInfo 1 .primary none)) quietInputs [] 0] ++
      sentLabels 1 ++ [.finish 1,
        .update (.connectionClosed .primary 1) quietInputs [⟨.a3, 0⟩] 0, .mark]) rfl (by decide)
  simp only [Bool.and_eq_true, decide_eq_true_eq, Option.any_eq_true] at present holds
  obtain ⟨task, found, primary, closed⟩ := present
  obtain ⟨slot, stored, item, isItem, tracked⟩ := holds
  cases item with
  | ack peerMsgId | error peerMsgId frame => cases tracked
  | tracked outbound =>
    have nothing := closed_callis_carries_nothing reached found primary closed (by simp [idle])
      stored isItem
    exact ⟨run, task, slot, outbound, reached, found, closed, stored, isItem, nothing.1,
      nothing.2.1⟩

/-- A callis that claims between its disconnection and its end keeps the message for good. -/
theorem disconnected_callis_keeps_message :
    ∃ run task slot, (system ⟨1, 1, 1, 1⟩ 0).Reachable run ∧
      run.tasks.lookup 1 = some task ∧ task.kind = .primary ∧ task.closed = true ∧
      run.ctx.agenda = [] ∧ run.ctx.store.slot ⟨.a3, 0⟩ = some slot ∧
      slot.item = some (.tracked ⟨⟨7, 1, 2, a3MessageTypeBase, 0, []⟩, 0⟩) ∧
      slot.state = .inflight 1 := by
  obtain ⟨run, reached, present, idle, holds⟩ :
      ∃ run, (system ⟨1, 1, 1, 1⟩ 0).Reachable run ∧
        (run.tasks.lookup 1).any (fun task => decide (task.kind = .primary) && task.closed) = true ∧
        run.ctx.agenda = [] ∧ (run.ctx.store.slot ⟨.a3, 0⟩).any (fun slot =>
          decide (slot.item = some (.tracked ⟨⟨7, 1, 2, a3MessageTypeBase, 0, []⟩, 0⟩)) &&
            decide (slot.state = .inflight 1)) = true :=
    Machine.System.exists_reachable ([.spawn .primary 1,
      .update (.connected .primary (connectedInfo 1 .primary none)) quietInputs [] 0,
      .update (.disconnect .primary (some 1)) quietInputs [] 0, .mark] ++ sentLabels 1 ++
      [.finish 1, .update (.connectionClosed .primary 1) quietInputs [⟨.a3, 0⟩] 0]) rfl (by decide)
  simp only [Bool.and_eq_true, decide_eq_true_eq, Option.any_eq_true] at present holds
  obtain ⟨task, found, primary, closed⟩ := present
  obtain ⟨slot, stored, isItem, isState⟩ := holds
  exact ⟨run, task, slot, reached, found, primary, closed, idle, stored, isItem, isState⟩

end PeerRun

end AureliaPeering.Peer
