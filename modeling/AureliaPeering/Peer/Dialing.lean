import AureliaPeering.Peer.Pools

/-!
The dials of a peer, from their launch until the state task has processed their report.

A dial task reports `Connected` or `DialFailed`, once.  An accepted callis also reports
`Connected`, and the loss of any callis of a kind clears the dial state of that kind, although a
dial may still be under way.
-/

namespace AureliaPeering.Peer

open Collections Store List Option

structure DialTask where
  number : Nat
  kind : CallisKind
deriving DecidableEq, Repr

/-- A run of the peer with what its state task has set off: the dials whose report is not yet
processed, all dial effects so far, the handles that were asked to close on their arrival, and how
often the peer was closed. -/
structure DialRun where
  peer : PeerRun
  dials : List DialTask
  emitted : List CallisKind
  refused : List CallisHandle
  gracefulCloses : Nat
  teardowns : Nat

inductive DialLabel where
  /-- Any step of the peer that is not the report of a dial.  The address may be known or not. -/
  | peer (label : PeerLabel) (addressKnown : Bool)
  /-- The state task processes the report of a dial. -/
  | report (number : Nat) (update : PeerStateUpdate) (inputs : DialInputs) (order : List SlotId)
      (now : Instant) (addressKnown : Bool)

def PeerStateUpdate.isDialFailed : PeerStateUpdate → Bool
  | .dialFailed _ => true
  | _ => false

def PeerLabel.isDialFailed : PeerLabel → Bool
  | .update taken _ _ _ => taken.isDialFailed
  | _ => false

/-- The two reports a dial of a kind can end with. -/
def PeerStateUpdate.reportsDial : PeerStateUpdate → CallisKind → Bool
  | .connected callis _, kind | .dialFailed callis, kind => callis = kind
  | _, _ => false

namespace DialRun

def new (capacities : RetainedCapacities) (now : Instant) : DialRun :=
  ⟨.new capacities now, [], [], [], 0, 0⟩

/-- The run after a step of the peer has led to `next`. -/
def after (run : DialRun) (label : PeerLabel) (addressKnown : Bool) (next : PeerRun) : DialRun :=
  match label with
  | .update update inputs order _ =>
    let effects := run.peer.ctx.effects update inputs order
    { peer := next
      dials := run.dials ++
        (PeerContext.launch effects inputs addressKnown).toList.map (⟨run.emitted.length, ·⟩)
      emitted := run.emitted ++ [CallisKind.primary, .blob].filter effects.spawns
      refused := run.refused ++ (PeerContext.refused effects update).toList
      gracefulCloses :=
        if update = .gracefulClose ∧ effects.publishSnapshot = true then run.gracefulCloses + 1
        else run.gracefulCloses
      teardowns := run.teardowns }
  | .teardown .. => { run with peer := next, teardowns := run.teardowns + 1 }
  | _ => { run with peer := next }

def step (run : DialRun) : DialLabel → Option DialRun
  | .peer label addressKnown =>
    if label.isDialFailed then none
    else (run.peer.step label).map (run.after label addressKnown)
  | .report number update inputs order now addressKnown =>
    (run.dials.find? (·.number = number)).bind fun dial =>
      if update.reportsDial dial.kind then
        (run.peer.step (.update update inputs order now)).map
          ({ run with dials := run.dials.erase dial }.after (.update update inputs order now)
            addressKnown)
      else none

def system (capacities : RetainedCapacities) (now : Instant) : Machine.System DialRun DialLabel :=
  .ofStep (· = .new capacities now) step

/-! ### Single dials -/

def Single (run : DialRun) : Prop := ∀ kind, run.dials.countP (·.kind = kind) ≤ 1

/-- While the peer is not closing, a dial under way is booked: no result of another dial has
cleared its booking. -/
def Booked (run : DialRun) : Prop :=
  run.peer.ctx.state.closing = true ∨
    ∀ dial ∈ run.dials, run.peer.ctx.state.dialing dial.kind = true

/-- No `Connected` of an accepted callis, `Disconnect` or `ConnectionClosed` is processed while a
dial of its kind is under way. -/
def Undisturbed (run : DialRun) : DialLabel → Prop
  | .peer (.update update _ _ _) _ => ∀ dial ∈ run.dials, update.resets dial.kind = false
  | _ => True

instance (run : DialRun) (label : DialLabel) : Decidable (run.Undisturbed label) := by
  unfold Undisturbed
  split <;> infer_instance

section Single

variable {run next : DialRun} {peer : PeerRun} {update : PeerStateUpdate} {inputs : DialInputs}
  {order : List SlotId} {now : Instant} {known : Bool}

theorem launch_eq_some {effects : PeerStateEffects} {kind : CallisKind}
    (launched : PeerContext.launch effects inputs known = some kind) :
    effects.spawns kind = true ∧ inputs.launchCapacity = true := by
  unfold PeerContext.launch at launched
  split at launched
  · rename_i primary
    cases launched
    simp only [Bool.and_eq_true] at primary
    exact ⟨primary.1.1, primary.1.2⟩
  · split at launched
    · rename_i blob
      cases launched
      simp only [Bool.and_eq_true] at blob
      exact ⟨blob.1.1, blob.1.2⟩
    · cases launched

theorem update_state
    (stepped : run.peer.step (.update update inputs order now) = some peer) (kind : CallisKind) :
    peer.ctx.state.closing =
        (run.peer.ctx.state.closing || decide (update = .gracefulClose)) ∧
      peer.ctx.state.dialing kind =
        if (run.peer.ctx.effects update inputs order).spawns kind = true then
          inputs.launchCapacity
        else run.peer.ctx.state.dialing kind && run.peer.ctx.keepsBooking update kind := by
  obtain ⟨_, taken⟩ := ite_none_right_eq_some.mp stepped
  obtain ⟨_, _, rfl⟩ := map_eq_some_iff.mp taken
  have books := run.peer.ctx.books update inputs order kind
  cases kind <;> exact ⟨books.closing, books.dialing⟩

theorem Booked.kept (booked : run.Booked)
    (clear : ∀ dial ∈ run.dials, update.resets dial.kind = false)
    (stepped : run.peer.step (.update update inputs order now) = some peer) :
    peer.ctx.state.closing = true ∨
      ∀ dial ∈ run.dials, peer.ctx.state.dialing dial.kind = true := by
  by_cases closing : peer.ctx.state.closing = true
  · exact .inl closing
  · refine .inr fun dial listed => ?_
    obtain ⟨isClosing, isDialing⟩ := update_state stepped dial.kind
    rw [isClosing, Bool.or_eq_true, not_or, decide_eq_true_eq] at closing
    have active := booked.resolve_left closing.1 dial listed
    have undisturbed := clear dial listed
    rw [isDialing]
    split
    · rename_i spawned
      rcases (PeerContext.spawns_effects spawned).2 with resets | ⟨_, idle⟩
      · cases undisturbed.symm.trans resets
      · cases active.symm.trans idle
    · rw [active, PeerContext.keepsBooking_of_kept undisturbed closing.2]
      rfl

theorem Booked.fresh (booked : run.Booked)
    (clear : ∀ dial ∈ run.dials, update.resets dial.kind = false) {kind : CallisKind}
    (spawned : (run.peer.ctx.effects update inputs order).spawns kind = true) :
    ∀ dial ∈ run.dials, dial.kind ≠ kind := by
  rintro dial listed rfl
  obtain ⟨active, resets | ⟨_, idle⟩⟩ := PeerContext.spawns_effects spawned
  · cases (clear dial listed).symm.trans resets
  · rcases booked with closing | dialing
    · cases active.symm.trans closing
    · cases (dialing dial listed).symm.trans idle

theorem single_update (single : run.Single) (booked : run.Booked)
    (clear : ∀ dial ∈ run.dials, update.resets dial.kind = false)
    (stepped : run.peer.step (.update update inputs order now) = some peer) :
    (run.after (.update update inputs order now) known peer).Single ∧
      (run.after (.update update inputs order now) known peer).Booked := by
  have kept := booked.kept clear stepped
  cases launched : PeerContext.launch (run.peer.ctx.effects update inputs order) inputs known with
  | none =>
    have same : (run.after (.update update inputs order now) known peer).dials = run.dials := by
      simp [DialRun.after, launched]
    refine ⟨?_, ?_⟩
    · unfold Single
      rw [same]
      exact single
    · unfold Booked
      rw [same]
      exact kept
  | some kind =>
    obtain ⟨spawned, capacity⟩ := launch_eq_some launched
    have more : (run.after (.update update inputs order now) known peer).dials =
        run.dials ++ [⟨run.emitted.length, kind⟩] := by
      simp [DialRun.after, launched]
    have fresh := booked.fresh clear spawned
    refine ⟨?_, ?_⟩
    · intro other
      rw [more, countP_append]
      by_cases same : kind = other
      · have none : run.dials.countP (·.kind = other) = 0 := by
          rw [countP_eq_zero]
          intro dial listed
          simpa [same] using fresh dial listed
        simp [none, same]
      · simpa [same] using single other
    · refine kept.imp id fun dialing dial listed => ?_
      rw [more] at listed
      rcases mem_append.mp listed with old | new
      · exact dialing dial old
      · obtain rfl := mem_singleton.mp new
        have isDialing := (update_state stepped kind).2
        rw [if_pos spawned, capacity] at isDialing
        exact isDialing

theorem state_step {label : PeerLabel} {before after : PeerRun}
    (stepped : before.step label = some after)
    (noUpdate : ∀ update inputs order now, label ≠ .update update inputs order now)
    (noTeardown : ∀ order now, label ≠ .teardown order now) :
    after.ctx.state = before.ctx.state ∧
      (before.ctx.pool.order.Nodup → before.ctx.Shrinks after.ctx) := by
  have same {store : RetainedStore} {closing : Bool} {agenda : List StoreMark}
      (nodup : before.ctx.pool.order.Nodup) :
      before.ctx.Shrinks ⟨before.ctx.state, before.ctx.primaryActive, before.ctx.pool, store,
        closing, agenda⟩ :=
    PeerContext.shrinks_of_pools nodup rfl rfl
  cases label with
  | spawn kind id =>
    obtain ⟨_, ⟨⟩⟩ := ite_none_left_eq_some.mp stepped
    exact ⟨rfl, same⟩
  | claim id | finish id =>
    obtain ⟨task, _, allowed⟩ := bind_eq_some_iff.mp stepped
    obtain ⟨_, ⟨⟩⟩ := ite_none_right_eq_some.mp allowed
    exact ⟨rfl, same⟩
  | complete id result =>
    obtain ⟨task, _, claimed⟩ := bind_eq_some_iff.mp stepped
    obtain ⟨claim, _, rfl⟩ := map_eq_some_iff.mp claimed
    exact ⟨rfl, same⟩
  | storeOp op =>
    obtain ⟨_, performed⟩ := ite_none_right_eq_some.mp stepped
    obtain ⟨result, _, rfl⟩ := map_eq_some_iff.mp performed
    exact ⟨rfl, same⟩
  | update update inputs order now => exact absurd rfl (noUpdate update inputs order now)
  | mark =>
    simp only [PeerRun.step] at stepped
    split at stepped
    · cases stepped
    · cases stepped
      exact ⟨rfl, same⟩
  | teardown order now => exact absurd rfl (noTeardown order now)
  | drainCallis =>
    obtain ⟨_, ⟨⟩⟩ := ite_none_right_eq_some.mp stepped
    exact ⟨rfl, fun _ => PeerContext.shrinks_drain (.refl _)⟩
  | selectCallis =>
    cases stepped
    refine ⟨rfl, fun nodup => ?_⟩
    obtain ⟨order, back⟩ :=
      BlobCallisPool.selectLoop_shrinks before.ctx.pool.order.length nodup
    exact ⟨.refl _, back, order⟩
  | beginClose =>
    cases stepped
    exact ⟨rfl, same⟩

theorem single_step {label : DialLabel} (single : run.Single) (booked : run.Booked)
    (stepped : run.step label = some next) (undisturbed : run.Undisturbed label) :
    next.Single ∧ next.Booked := by
  cases label with
  | peer label known =>
    obtain ⟨_, taken⟩ := ite_none_left_eq_some.mp stepped
    obtain ⟨peer, moved, rfl⟩ := map_eq_some_iff.mp taken
    cases label with
    | update update inputs order now => exact single_update single booked undisturbed moved
    | teardown order now =>
      obtain ⟨_, ⟨⟩⟩ := ite_none_right_eq_some.mp moved
      exact ⟨single, .inl rfl⟩
    | _ =>
      have same := (state_step moved (by simp) (by simp)).1
      refine ⟨single, ?_⟩
      unfold Booked DialRun.after
      rw [same]
      exact booked
  | report number update inputs order now known =>
    obtain ⟨dial, found, allowed⟩ := bind_eq_some_iff.mp stepped
    obtain ⟨reports, taken⟩ := ite_none_right_eq_some.mp allowed
    obtain ⟨peer, moved, rfl⟩ := map_eq_some_iff.mp taken
    have listed := mem_of_find?_eq_some found
    have fewer : ({ run with dials := run.dials.erase dial } : DialRun).Single := by
      intro kind
      exact (erase_sublist.countP_le).trans (single kind)
    have still : ({ run with dials := run.dials.erase dial } : DialRun).Booked :=
      booked.imp id fun dialing other kept => dialing other (mem_of_mem_erase kept)
    refine single_update fewer still ?_ moved
    -- The dial that reports was the only one of its kind.
    intro other kept
    have apart : other.kind ≠ dial.kind := by
      intro same
      have count := single dial.kind
      have erased := (perm_cons_erase listed).countP_eq
        (fun task : DialTask => decide (task.kind = dial.kind))
      have positive : 0 < (run.dials.erase dial).countP (·.kind = dial.kind) :=
        countP_pos_iff.mpr ⟨other, kept, by simpa using same⟩
      rw [erased, countP_cons_of_pos (by simp)] at count
      omega
    cases update with
    | connected callis info =>
      simp only [PeerStateUpdate.reportsDial, decide_eq_true_eq] at reports
      subst reports
      exact decide_eq_false (Ne.symm apart)
    | dialFailed callis =>
      simp only [PeerStateUpdate.reportsDial, decide_eq_true_eq] at reports
      subst reports
      exact decide_eq_false (Ne.symm apart)
    | _ => cases reports

end Single

/-- In every run in which no update of a kind other than the report of its dial is processed while
a dial of that kind is under way, there is at most one dial of each kind, and no report clears the
booking of another dial. -/
theorem dials_single {capacities : RetainedCapacities} {now : Instant} {run : DialRun}
    (reached : ((system capacities now).restrict Undisturbed).Reachable run) :
    run.Single ∧ run.Booked := by
  refine @Machine.System.Reachable.invariant _ _ _ (fun run => run.Single ∧ run.Booked) ?_ ?_ _
    reached
  · rintro _ rfl
    exact ⟨fun _ => Nat.zero_le 1, .inr nofun⟩
  · rintro _ _ _ ⟨single, booked⟩ ⟨stepped, undisturbed⟩
    exact single_step single booked stepped undisturbed

def busyInputs : DialInputs := ⟨true, true, true, true⟩

/-- A dial fails and is followed by another one, whose callis is then entered. -/
theorem dials_single_retried :
    ∃ run, ((system ⟨1, 1, 1, 1⟩ 0).restrict Undisturbed).Reachable run ∧
      run.emitted = [.primary, .primary] ∧ run.Single ∧ run.Booked := by
  obtain ⟨run, reached, emitted⟩ :
      ∃ run, ((system ⟨1, 1, 1, 1⟩ 0).restrict Undisturbed).Reachable run ∧
        run.emitted = [.primary, .primary] :=
    Machine.System.exists_guarded
      [.peer (.update .ensurePrimaryDial busyInputs [] 0) true,
        .report 0 (.dialFailed .primary) busyInputs [] 0 true,
        .peer (.spawn .primary 1) true,
        .report 1 (.connected .primary (PeerRun.connectedInfo 1 .primary none)) busyInputs [] 0
          true] rfl (by decide)
  exact ⟨run, reached, emitted, dials_single reached⟩

/-- A callis is accepted and lost while a primary dial is under way. -/
def lostCallis : List DialLabel :=
  [.peer (.update .ensurePrimaryDial busyInputs [] 0) true,
    .peer (.spawn .primary 1) true,
    .peer (.update (.connected .primary (PeerRun.connectedInfo 1 .primary none)) busyInputs [] 0)
      true,
    .peer (.finish 1) true,
    .peer (.update (.connectionClosed .primary 1) busyInputs [] 0) true]

/-- A second dial is launched then, and the failure of the first clears its booking. -/
theorem accepted_callis_doubles_dial :
    (∃ run, (system ⟨1, 1, 1, 1⟩ 0).Reachable run ∧
      run.dials = [⟨0, .primary⟩, ⟨1, .primary⟩]) ∧
    ∃ run, (system ⟨1, 1, 1, 1⟩ 0).Reachable run ∧ run.dials = [⟨1, .primary⟩] ∧
      run.peer.ctx.state.closing = false ∧ run.peer.ctx.state.dialing .primary = false := by
  constructor
  · exact Machine.System.exists_reachable lostCallis rfl (by decide)
  · exact Machine.System.exists_reachable (lostCallis ++
      [.peer .mark true,
        .report 0 (.dialFailed .primary) PeerRun.quietInputs [] 0 true]) rfl (by decide)

/-! ### Closing -/

def connectedHandle : DialLabel → Option CallisHandle
  | .peer (.update (.connected _ info) _ _ _) _ => some info.handle
  | .report _ (.connected _ info) _ _ _ _ => some info.handle
  | _ => none

/-- What the events after the start of closing leave: the peer still closes, no dial was decided
on or launched, no callis entered a pool, and it was not closed once more. -/
structure Absorbed (before after : DialRun) : Prop where
  closing : after.peer.ctx.state.closing = true
  emitted : after.emitted = before.emitted
  dials : after.dials.Sublist before.dials
  pools : before.peer.ctx.Shrinks after.peer.ctx
  gracefulCloses : after.gracefulCloses = before.gracefulCloses
  teardowns : after.teardowns = before.teardowns
  refused : before.refused ⊆ after.refused

section Closing

variable {run next : DialRun} {peer : PeerRun} {update : PeerStateUpdate} {inputs : DialInputs}
  {order : List SlotId} {now : Instant} {known : Bool}
variable {label : DialLabel} {capacities : RetainedCapacities}

theorem shrinks_connected {ctx : PeerContext} (nodup : ctx.pool.order.Nodup)
    (closing : ctx.state.closing = true) (kind : CallisKind) (info : ConnectionInfo) :
    ctx.Shrinks (ctx.executeUpdate (.connected kind info) inputs order) := by
  cases kind with
  | primary =>
    have refused : ctx.executeUpdate (.connected .primary info) inputs order = ctx := by
      simp [PeerContext.executeUpdate, PeerContext.execute, PeerContext.executeConnectedPrimary,
        PeerStateMachine.connectedPrimary, closing]
    rw [refused]
    exact PeerContext.shrinks_of_pools nodup rfl rfl
  | blob =>
    have refused : ctx.executeUpdate (.connected .blob info) inputs order = ctx := by
      simp [PeerContext.executeUpdate, PeerContext.execute, PeerContext.executeConnectedBlob,
        PeerStateMachine.connectedBlob, closing]
    rw [refused]
    exact PeerContext.shrinks_of_pools nodup rfl rfl

theorem order_nodup_step {label : PeerLabel} {before after : PeerRun}
    (nodup : before.ctx.pool.order.Nodup) (stepped : before.step label = some after) :
    after.ctx.pool.order.Nodup := by
  cases label with
  | update update inputs order now =>
    obtain ⟨_, taken⟩ := ite_none_right_eq_some.mp stepped
    obtain ⟨_, _, rfl⟩ := map_eq_some_iff.mp taken
    cases update with
    | connected kind info =>
      exact (PeerContext.enters_connected nodup kind info inputs order).order
    | _ => exact (PeerContext.shrinks_executeUpdate nodup _ (by simp) inputs order).order
  | teardown order now =>
    obtain ⟨_, ⟨⟩⟩ := ite_none_right_eq_some.mp stepped
    exact nodup_nil
  | _ => exact ((state_step stepped (by simp) (by simp)).2 nodup).order

theorem absorbed_update (nodup : run.peer.ctx.pool.order.Nodup)
    (closing : run.peer.ctx.state.closing = true)
    (stepped : run.peer.step (.update update inputs order now) = some peer) :
    Absorbed run (run.after (.update update inputs order now) known peer) ∧
      ∀ kind info, update = .connected kind info →
        info.handle ∈ (run.after (.update update inputs order now) known peer).refused := by
  have quiet (kind : CallisKind) :
      (run.peer.ctx.effects update inputs order).spawns kind = false := by
    cases spawned : (run.peer.ctx.effects update inputs order).spawns kind with
    | false => rfl
    | true => rw [(PeerContext.spawns_effects spawned).1] at closing; cases closing
  have unlaunched : PeerContext.launch (run.peer.ctx.effects update inputs order) inputs known =
      none := by
    cases launched : PeerContext.launch (run.peer.ctx.effects update inputs order) inputs known with
    | none => rfl
    | some kind =>
      have spawned := (launch_eq_some launched).1
      rw [quiet] at spawned
      cases spawned
  have shrinks : run.peer.ctx.Shrinks peer.ctx := by
    obtain ⟨_, taken⟩ := ite_none_right_eq_some.mp stepped
    obtain ⟨_, _, rfl⟩ := map_eq_some_iff.mp taken
    refine PeerContext.Shrinks.same ?_ (PeerContext.sameCallis_updateImpairedSince _ now)
    cases update with
    | connected kind info => exact shrinks_connected nodup closing kind info
    | _ => exact PeerContext.shrinks_executeUpdate nodup _ (by simp) inputs order
  refine ⟨⟨?_, ?_, ?_, shrinks, ?_, rfl, subset_append_left _ _⟩, ?_⟩
  · have still := (update_state stepped .primary).1
    rw [closing, Bool.true_or] at still
    exact still
  · simp [DialRun.after, quiet]
  · simp [DialRun.after, unlaunched]
  · have once : ¬ (update = .gracefulClose ∧
        (run.peer.ctx.effects update inputs order).publishSnapshot = true) := by
      rintro ⟨rfl, published⟩
      simp [PeerContext.effects, PeerContext.execute, PeerContext.executeGracefulClose,
        PeerStateMachine.gracefulClose, closing] at published
    simp [DialRun.after, once]
  · rintro kind info rfl
    refine mem_append_right _ ?_
    cases kind <;> simp [PeerContext.refused, PeerContext.effects, PeerContext.execute,
      PeerContext.executeConnectedPrimary, PeerContext.executeConnectedBlob,
      PeerStateMachine.connectedPrimary, PeerStateMachine.connectedBlob, closing]

theorem absorbed_step (nodup : run.peer.ctx.pool.order.Nodup)
    (closing : run.peer.ctx.state.closing = true) (stepped : run.step label = some next) :
    Absorbed run next ∧
      ∀ handle, connectedHandle label = some handle → handle ∈ next.refused := by
  cases label with
  | peer label known =>
    obtain ⟨_, taken⟩ := ite_none_left_eq_some.mp stepped
    obtain ⟨peer, moved, rfl⟩ := map_eq_some_iff.mp taken
    cases label with
    | update update inputs order now =>
      obtain ⟨absorbed, refused⟩ := absorbed_update nodup closing moved
      refine ⟨absorbed, fun handle carried => ?_⟩
      cases update with
      | connected kind info =>
        cases carried
        exact refused kind info rfl
      | _ => cases carried
    | teardown order now =>
      obtain ⟨⟨_, impaired, _⟩, _⟩ := ite_none_right_eq_some.mp moved
      simp [PeerContext.impaired, closing] at impaired
    | _ =>
      obtain ⟨state, shrinks⟩ := state_step moved (by simp) (by simp)
      exact ⟨⟨state ▸ closing, rfl, .refl _, shrinks nodup, rfl, rfl, fun _ kept => kept⟩,
        nofun⟩
  | report number update inputs order now known =>
    obtain ⟨dial, _, allowed⟩ := bind_eq_some_iff.mp stepped
    obtain ⟨_, taken⟩ := ite_none_right_eq_some.mp allowed
    obtain ⟨peer, moved, rfl⟩ := map_eq_some_iff.mp taken
    obtain ⟨absorbed, refused⟩ := @absorbed_update
      { run with dials := run.dials.erase dial } _ _ _ _ _ known nodup closing moved
    refine ⟨⟨absorbed.closing, absorbed.emitted, absorbed.dials.trans erase_sublist,
      absorbed.pools, absorbed.gracefulCloses, absorbed.teardowns, absorbed.refused⟩,
      fun handle carried => ?_⟩
    cases update with
    | connected kind info =>
      cases carried
      exact refused kind info rfl
    | _ => cases carried

theorem Absorbed.refl (nodup : run.peer.ctx.pool.order.Nodup)
    (closing : run.peer.ctx.state.closing = true) : Absorbed run run where
  closing := closing
  emitted := rfl
  dials := .refl _
  pools := PeerContext.shrinks_of_pools nodup rfl rfl
  gracefulCloses := rfl
  teardowns := rfl
  refused := fun _ kept => kept

theorem Absorbed.trans {first second third : DialRun} (left : Absorbed first second)
    (right : Absorbed second third) : Absorbed first third where
  closing := right.closing
  emitted := right.emitted.trans left.emitted
  dials := right.dials.trans left.dials
  pools := ⟨right.pools.primary.trans left.pools.primary,
    fun id mentions => left.pools.pool id (right.pools.pool id mentions), right.pools.order⟩
  gracefulCloses := right.gracefulCloses.trans left.gracefulCloses
  teardowns := right.teardowns.trans left.teardowns
  refused := fun _ kept => right.refused (left.refused kept)

theorem absorbed_run {later : DialRun} {labels : List DialLabel}
    (nodup : run.peer.ctx.pool.order.Nodup) (closing : run.peer.ctx.state.closing = true)
    (taken : (system capacities now).Run run labels later) :
    Absorbed run later ∧ ∀ label ∈ labels, ∀ handle, connectedHandle label = some handle →
      handle ∈ later.refused := by
  induction taken with
  | nil => exact ⟨.refl nodup closing, fun label listed => absurd listed not_mem_nil⟩
  | snoc _ stepped ih =>
    obtain ⟨absorbed, refused⟩ := ih
    obtain ⟨more, last⟩ := absorbed_step absorbed.pools.order absorbed.closing stepped
    refine ⟨absorbed.trans more, fun label listed handle carried => ?_⟩
    rcases mem_append.mp listed with old | new
    · exact more.refused (refused label old handle carried)
    · obtain rfl := mem_singleton.mp new
      exact last handle carried

/-- The peer closes once, by a graceful close or by a teardown. -/
structure ClosedOnce (run : DialRun) : Prop where
  order : run.peer.ctx.pool.order.Nodup
  once : run.gracefulCloses + run.teardowns = if run.peer.ctx.state.closing = true then 1 else 0

theorem closedOnce_update (closed : run.ClosedOnce)
    (stepped : run.peer.step (.update update inputs order now) = some peer) :
    (run.after (.update update inputs order now) known peer).ClosedOnce := by
  refine ⟨order_nodup_step closed.order stepped, ?_⟩
  have once := closed.once
  have closing := (update_state stepped .primary).1
  simp only [DialRun.after, closing]
  by_cases graceful : update = .gracefulClose
  · subst graceful
    cases before : run.peer.ctx.state.closing with
    | true =>
      rw [before] at once
      simpa [PeerContext.effects, PeerContext.execute, PeerContext.executeGracefulClose,
        PeerStateMachine.gracefulClose, before] using once
    | false =>
      rw [before] at once
      simp only [PeerContext.effects, PeerContext.execute, PeerContext.executeGracefulClose,
        PeerStateMachine.gracefulClose, before, Bool.false_eq_true, if_false, true_and, if_true,
        decide_true, Bool.or_true] at once ⊢
      omega
  · simpa [graceful] using once

theorem closedOnce_step (closed : run.ClosedOnce)
    (stepped : run.step label = some next) : next.ClosedOnce := by
  cases label with
  | peer label known =>
    obtain ⟨_, taken⟩ := ite_none_left_eq_some.mp stepped
    obtain ⟨peer, moved, rfl⟩ := map_eq_some_iff.mp taken
    cases label with
    | update update inputs order now => exact closedOnce_update closed moved
    | teardown order now =>
      refine ⟨order_nodup_step closed.order moved, ?_⟩
      obtain ⟨⟨_, impaired, _⟩, ⟨⟩⟩ := ite_none_right_eq_some.mp moved
      have once := closed.once
      have active : run.peer.ctx.state.closing = false := by
        simp only [PeerContext.impaired, Bool.and_eq_true, Bool.not_eq_true'] at impaired
        exact impaired.1.1.1.2
      rw [active] at once
      simp only [Bool.false_eq_true, if_false] at once
      simp only [DialRun.after]
      change _ = 1
      omega
    | _ =>
      refine ⟨order_nodup_step closed.order moved, ?_⟩
      have state := (state_step moved (by simp) (by simp)).1
      simp only [DialRun.after, state]
      exact closed.once
  | report number update inputs order now known =>
    obtain ⟨dial, _, allowed⟩ := bind_eq_some_iff.mp stepped
    obtain ⟨_, taken⟩ := ite_none_right_eq_some.mp allowed
    obtain ⟨peer, moved, rfl⟩ := map_eq_some_iff.mp taken
    exact @closedOnce_update { run with dials := run.dials.erase dial } _ _ _ _ _ known
      ⟨closed.order, closed.once⟩ moved

theorem closedOnce_of_reachable
    (reached : (system capacities now).Reachable run) : run.ClosedOnce := by
  refine @Machine.System.Reachable.invariant _ _ _ ClosedOnce ?_ ?_ _ reached
  · rintro _ rfl
    exact ⟨nodup_nil, rfl⟩
  · intro before label after closed stepped
    exact closedOnce_step closed stepped

end Closing

/-- Closing is absorbing: whatever events follow a state in which the peer closes, it goes on
closing, no dial is decided on, nothing enters a pool, and a callis that arrives late is asked to
close.  The peer is closed gracefully at most once, and torn down at most once. -/
theorem closing_absorbs {capacities : RetainedCapacities} {now : Instant} {run : DialRun}
    (reached : (system capacities now).Reachable run) :
    run.gracefulCloses ≤ 1 ∧ run.teardowns ≤ 1 ∧
      ∀ labels later, run.peer.ctx.state.closing = true →
        (system capacities now).Run run labels later →
          Absorbed run later ∧ ∀ label ∈ labels, ∀ handle, connectedHandle label = some handle →
            handle ∈ later.refused := by
  have closed := closedOnce_of_reachable reached
  have once := closed.once
  have atMost : run.gracefulCloses + run.teardowns ≤ 1 := by
    rw [once]
    split <;> omega
  refine ⟨by omega, by omega, fun labels later closing taken => ?_⟩
  exact absorbed_run closed.order closing taken

/-- The callis of a dial comes to life and is reported. -/
def lateDial : List DialLabel :=
  [.peer (.spawn .primary 1) true,
    .report 0 (.connected .primary (PeerRun.connectedInfo 1 .primary none)) busyInputs [] 0 true]

/-- A graceful close while a dial is under way, whose callis is then refused. -/
theorem closing_absorbs_late_dial :
    ∃ run later : DialRun, (system ⟨1, 1, 1, 1⟩ 0).Reachable run ∧
      run.peer.ctx.state.closing = true ∧ run.dials = [⟨0, .primary⟩] ∧
      (system ⟨1, 1, 1, 1⟩ 0).Run run lateDial later ∧
      run.gracefulCloses ≤ 1 ∧ run.teardowns ≤ 1 ∧ Absorbed run later ∧
      ⟨1, .primary⟩ ∈ later.refused := by
  have closes : (Machine.exec step (.new ⟨1, 1, 1, 1⟩ 0)
      [.peer (.update .ensurePrimaryDial busyInputs [] 0) true,
        .peer (.update .gracefulClose busyInputs [] 0) true]).any
      (fun run => run.peer.ctx.state.closing && decide (run.dials = [⟨0, .primary⟩]) &&
        (Machine.exec step run lateDial).isSome) = true := by decide
  obtain ⟨run, ran, holds⟩ := (Option.any_eq_true _ _).mp closes
  simp only [Bool.and_eq_true, decide_eq_true_eq, Option.isSome_iff_exists] at holds
  obtain ⟨⟨closing, dials⟩, later, continued⟩ := holds
  have reached : (system ⟨1, 1, 1, 1⟩ 0).Reachable run :=
    (Machine.System.Reachable.start rfl).exec (fun _ _ _ taken => taken) _ ran
  obtain ⟨_, spawned, rest⟩ := Option.bind_eq_some_iff.mp continued
  obtain ⟨_, reported, same⟩ := bind_eq_some_iff.mp rest
  cases same
  have taken : (system ⟨1, 1, 1, 1⟩ 0).Run run lateDial later := .snoc (.single spawned) reported
  obtain ⟨closedOnce, tornOnce, absorbs⟩ := closing_absorbs reached
  obtain ⟨absorbed, refused⟩ := absorbs lateDial later closing taken
  exact ⟨run, later, reached, closing, dials, taken, closedOnce, tornOnce, absorbed,
    refused _ (mem_cons_of_mem _ (mem_singleton.mpr rfl)) _ rfl⟩

end DialRun

end AureliaPeering.Peer
