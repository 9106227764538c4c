import AureliaPeering.Peer.PeerState

/-!
What the state task of a peer does beside its own state: the dials it starts, the handles it
refuses, and its graceful close.

The effects that an update returns say which.  `Calls` lists what an update can be, and what it
leaves of the bookings, the callis and the flags follows from it.
-/

namespace AureliaPeering.Peer

open Collections Store

def PeerState.dialing (state : PeerState) : CallisKind → Bool
  | .primary => state.primaryDial = .dialing
  | .blob => state.dialingBlob

def PeerStateEffects.spawns (effects : PeerStateEffects) : CallisKind → Bool
  | .primary => effects.spawnPrimaryDial
  | .blob => effects.spawnBlobDial

/-- The updates that clear the dial state of a kind, whatever they are about. -/
def PeerStateUpdate.resets : PeerStateUpdate → CallisKind → Bool
  | .connected callis _, kind | .dialFailed callis, kind | .disconnect callis _, kind
  | .connectionClosed callis _, kind => callis = kind
  | .ensurePrimaryDial, _ | .ensureBlobDial, _ | .gracefulClose, _ => false

def PeerStateUpdate.ensures : PeerStateUpdate → CallisKind → Bool
  | .ensurePrimaryDial, kind => kind = .primary
  | .ensureBlobDial, kind => kind = .blob
  | _, _ => false

/-- The updates that concern the dial of a kind. -/
def PeerStateUpdate.serves (update : PeerStateUpdate) (kind : CallisKind) : Bool :=
  update.resets kind || update.ensures kind

theorem PeerStateUpdate.serves_unique {update : PeerStateUpdate} {first second : CallisKind}
    (isFirst : update.serves first = true) (isSecond : update.serves second = true) :
    first = second := by
  cases update <;> simp_all [serves, resets, ensures]

namespace PeerContext

/-- The context in which an update consults the state machine: what it removes is gone. -/
def prepare (ctx : PeerContext) : PeerStateUpdate → PeerContext
  | .disconnect .primary (some id) => ctx.removePrimaryHandle id
  | .disconnect .primary none => { ctx with state := { ctx.state with primary := [] } }
  | .connectionClosed .primary id => ctx.removePrimaryHandle id
  | .disconnect .blob (some id) => { ctx with pool := ctx.pool.removeCallis id }
  | .disconnect .blob none => { ctx with pool := .new }
  | .connectionClosed .blob id => { ctx with pool := ctx.pool.removeCallis id }
  | _ => ctx

/-- The dial task that the effects lead to: capacity is checked once more, and without an address
nothing is spawned. -/
def launch (effects : PeerStateEffects) (inputs : DialInputs) (addressKnown : Bool) :
    Option CallisKind :=
  if effects.spawnPrimaryDial && inputs.launchCapacity && addressKnown then some .primary
  else if effects.spawnBlobDial && inputs.launchCapacity && addressKnown then some .blob
  else none

/-- The handle of a `Connected` that is refused: `spawn_send_close` asks its callis to close. -/
def refused (effects : PeerStateEffects) : PeerStateUpdate → Option CallisHandle
  | .connected .primary info => if effects.closeNewPrimary then some info.handle else none
  | .connected .blob info => if effects.closeNewBlob then some info.handle else none
  | _ => none

/-- Whether an update leaves a booking of the kind. -/
def keepsBooking (ctx : PeerContext) (update : PeerStateUpdate) (kind : CallisKind) : Bool :=
  match update with
  | .connected callis _ =>
    decide (callis ≠ kind) || ctx.state.closing || decide (kind = .primary) && ctx.sessionClosing
  | .gracefulClose => ctx.state.closing
  | other => !other.resets kind

end PeerContext

namespace PeerStateMachine

/-! ### Decisions about a dial -/

/-- What a decision about the dial of a kind leaves of the state, and whether it asks for the
dial. -/
structure Dials (kind : CallisKind) (asked : Bool) (state : PeerState)
    (decision : PeerState × PeerStateEffects) : Prop where
  primary : decision.1.primary = state.primary
  closing : decision.1.closing = state.closing
  dialing : ∀ other,
    decision.1.dialing other = (state.dialing other || decide (kind = other) && asked)
  spawns : ∀ other, decision.2.spawns other = (decide (kind = other) && asked)

variable {state : PeerState}
  {hasPrimaryWork hasCapacity hasPrimary hasCallis hasActiveStreams : Bool}

theorem dials_ensurePrimaryDial :
    Dials .primary (!state.closing && state.primary.isEmpty && !state.dialing .primary &&
      hasPrimaryWork && hasCapacity) state
      (ensurePrimaryDial state hasPrimaryWork hasCapacity) := by
  unfold ensurePrimaryDial
  split_ifs <;> refine ⟨rfl, rfl, fun other => ?_, fun other => ?_⟩ <;> cases other <;>
    grind [PeerState.dialing, PeerStateEffects.spawns]

theorem dials_ensureBlobDial :
    Dials .blob (!state.closing && hasPrimary && !state.dialing .blob && !hasCallis &&
      hasActiveStreams && hasCapacity) state
      (ensureBlobDial state hasPrimary hasCallis hasActiveStreams hasCapacity) := by
  unfold ensureBlobDial
  split_ifs <;> refine ⟨rfl, rfl, fun other => ?_, fun other => ?_⟩ <;> cases other <;>
    grind [PeerState.dialing, PeerStateEffects.spawns]

/-- A failed dial and a lost callis are followed by the decision of an ensure. -/
theorem dialFailedPrimary_eq : dialFailedPrimary state hasPrimaryWork hasCapacity =
    ensurePrimaryDial { state with primaryDial := .idle } hasPrimaryWork hasCapacity := by
  unfold dialFailedPrimary
  by_cases listed : state.primary = []
  · simp [listed]
  · simp [listed, ensurePrimaryDial]

theorem primaryRemoved_eq : primaryRemoved state hasPrimaryWork hasCapacity =
    ((dialFailedPrimary state hasPrimaryWork hasCapacity).1,
      { (dialFailedPrimary state hasPrimaryWork hasCapacity).2 with publishSnapshot := true }) := by
  unfold primaryRemoved dialFailedPrimary
  dsimp only
  split_ifs <;> rfl

theorem dials_primaryRemoved :
    Dials .primary (!state.closing && state.primary.isEmpty && hasPrimaryWork && hasCapacity)
      { state with primaryDial := .idle } (primaryRemoved state hasPrimaryWork hasCapacity) := by
  have dials := @dials_ensurePrimaryDial { state with primaryDial := .idle } hasPrimaryWork
    hasCapacity
  rw [← dialFailedPrimary_eq] at dials
  rw [primaryRemoved_eq]
  have idle : (!({ state with primaryDial := .idle } : PeerState).dialing .primary) = true := rfl
  rw [idle, Bool.and_true] at dials
  refine ⟨dials.primary, dials.closing, dials.dialing, fun other => ?_⟩
  cases other with
  | primary => exact dials.spawns .primary
  | blob => exact dials.spawns .blob

@[simp]
theorem primary_connectedPrimary (state : PeerState) (sessionClosing freshSession : Bool) :
    (connectedPrimary state sessionClosing freshSession).1.primary = state.primary := by
  unfold connectedPrimary
  split_ifs <;> rfl

@[simp]
theorem primary_connectedBlob (state : PeerState) (hasBlobSettings : Bool) :
    (connectedBlob state hasBlobSettings).1.primary = state.primary := by
  unfold connectedBlob
  dsimp only
  split_ifs <;> rfl

@[simp]
theorem primary_gracefulClose (state : PeerState) :
    (gracefulClose state).1.primary = state.primary := by
  unfold gracefulClose
  split_ifs <;> rfl

end PeerStateMachine

namespace PeerContext

open PeerStateMachine

variable {ctx before after : PeerContext} {update : PeerStateUpdate} {inputs : DialInputs}
variable {kind : CallisKind} {effects : PeerStateEffects} {asked : Bool}
variable {decision : PeerState × PeerStateEffects}

/-- What decides about dialling leaves the pools, the store and the pending marks alone. -/
structure SameCallis (before after : PeerContext) : Prop where
  primary : after.state.primary = before.state.primary
  pool : after.pool = before.pool
  store : after.store = before.store
  agenda : after.agenda = before.agenda

theorem sameCallis_updateImpairedSince (ctx : PeerContext) (now : Instant) :
    ctx.SameCallis (ctx.updateImpairedSince now) :=
  ⟨rfl, rfl, rfl, rfl⟩

/-- The execution of a decision: a dial that is asked for is booked if there still is capacity
when it is launched. -/
structure Redials (kind : CallisKind) (asked : Bool) (inputs : DialInputs)
    (before : PeerContext) (result : PeerContext × PeerStateEffects) : Prop extends
    before.SameCallis result.1 where
  flags : result.1.primaryActive = before.primaryActive ∧
    result.1.sessionClosing = before.sessionClosing ∧
    result.1.state.closing = before.state.closing
  dialing : ∀ other, result.1.state.dialing other =
    if kind = other ∧ asked = true then inputs.launchCapacity else before.state.dialing other
  spawns : ∀ other, result.2.spawns other = (decide (kind = other) && asked)

theorem redials_executePrimaryDial (dials : Dials .primary asked ctx.state decision) :
    Redials .primary asked inputs ctx
      ({ ctx with state := decision.1 }.executePrimaryDial decision.2 inputs, decision.2) := by
  have spawned : decision.2.spawnPrimaryDial = asked := dials.spawns .primary
  have blob := dials.dialing .blob
  have primary := dials.dialing .primary
  unfold executePrimaryDial
  dsimp only
  split_ifs <;>
    refine ⟨⟨dials.primary, rfl, rfl, rfl⟩, ⟨rfl, rfl, dials.closing⟩, fun other => ?_,
      dials.spawns⟩ <;>
    cases other <;> grind [PeerState.dialing]

theorem redials_executeBlobDial (dials : Dials .blob asked ctx.state decision) :
    Redials .blob asked inputs ctx
      ({ ctx with state := decision.1 }.executeBlobDial decision.2 inputs, decision.2) := by
  have spawned : decision.2.spawnBlobDial = asked := dials.spawns .blob
  have blob := dials.dialing .blob
  have primary := dials.dialing .primary
  unfold executeBlobDial
  split_ifs <;>
    refine ⟨⟨dials.primary, rfl, rfl, rfl⟩, ⟨rfl, rfl, dials.closing⟩, fun other => ?_,
      dials.spawns⟩ <;>
    cases other <;> grind [PeerState.dialing]

/-- The flag that the rest of the program reads says whether a primary callis is listed. -/
def Flagged (ctx : PeerContext) : Prop := ctx.primaryActive = !ctx.state.primary.isEmpty

theorem Flagged.of_eq (flagged : ctx.Flagged) (active : after.primaryActive = ctx.primaryActive)
    (primary : after.state.primary = ctx.state.primary) : after.Flagged := by
  unfold Flagged
  rw [active, primary]
  exact flagged

/-- What an update has done when it consults the state machine: its callis is gone, the booking of
its kind is cleared, and a sweep of each handle that it has removed is due. -/
structure Removes (ctx : PeerContext) (update : PeerStateUpdate) (before : PeerContext) : Prop where
  primary : before.state.primary = (ctx.prepare update).state.primary
  pool : before.pool = (ctx.prepare update).pool
  store : before.store = ctx.store
  sessionClosing : before.sessionClosing = ctx.sessionClosing
  closing : before.state.closing = ctx.state.closing
  dialing : ∀ other, before.state.dialing other = (ctx.state.dialing other && !update.resets other)
  flags : before.primaryActive = ctx.primaryActive ∧ before.state.primary = ctx.state.primary ∨
    update.serves .blob = false ∧ before.Flagged
  kept : ∀ handle ∈ ctx.state.primary, handle ∈ before.state.primary ∨
    .callisReplayReady handle.id ∈ before.agenda

/-- Whether a dial of the kind is asked for. -/
def asks (before : PeerContext) (inputs : DialInputs) : CallisKind → Bool
  | .primary => !before.state.closing && before.state.primary.isEmpty &&
    !before.state.dialing .primary && before.hasPrimaryWork inputs && inputs.hasCapacity
  | .blob => !before.state.closing && before.primaryActive && !before.state.dialing .blob &&
    !before.pool.hasCallis && inputs.hasActiveStreams && inputs.hasCapacity

theorem asks_active (asked : before.asks inputs kind = true) :
    before.state.closing = false ∧ before.state.dialing kind = false := by
  cases kind <;> simp_all [asks]

/-- An update enters a callis, closes the peer, or decides about the dial of one kind. -/
inductive Calls (ctx : PeerContext) (inputs : DialInputs) : PeerStateUpdate → Prop where
  | connected (callis : CallisKind) (info : ConnectionInfo) :
      Calls ctx inputs (.connected callis info)
  | gracefulClose : Calls ctx inputs .gracefulClose
  | decides {update : PeerStateUpdate} (kind : CallisKind) (before : PeerContext) :
      update ≠ .gracefulClose → (∀ other, ctx.keepsBooking update other = !update.resets other) →
      (∀ other, update.serves other = decide (kind = other)) → Removes ctx update before →
      (∀ order, Redials kind (before.asks inputs kind) inputs before
        (ctx.execute update inputs order)) → Calls ctx inputs update

/-- The handle as it is removed, before the booking is cleared. -/
theorem removePrimaryHandle_eq (ctx : PeerContext) (id : CallisId) :
    ctx.removePrimaryHandle id =
      { ctx with
        state := { ctx.state with primary := (ctx.removePrimaryHandle id).state.primary }
        agenda := (ctx.removePrimaryHandle id).agenda } := by
  unfold removePrimaryHandle
  split_ifs <;> rfl

theorem kept_removePrimaryHandle (ctx : PeerContext) (id : CallisId) :
    ∀ handle ∈ ctx.state.primary, handle ∈ (ctx.removePrimaryHandle id).state.primary ∨
      .callisReplayReady handle.id ∈ (ctx.removePrimaryHandle id).agenda := by
  intro handle listed
  unfold removePrimaryHandle
  split_ifs
  · by_cases same : handle.id = id
    · exact .inr (by simp [same])
    · exact .inl ((List.mem_eraseP_of_neg (by simpa using same)).mpr listed)
  · exact .inl listed

/-- The context in which the dial is decided after primary callis have been removed. -/
def afterRemoval (removed : PeerContext) : PeerContext :=
  { removed with
    state := { removed.state with primaryDial := .idle }
    primaryActive := !removed.state.primary.isEmpty }

theorem calls_of_primaryRemoved {removed : PeerContext} {allowNewDial : Bool}
    (stays : update ≠ .gracefulClose)
    (kept : ∀ other, ctx.keepsBooking update other = !update.resets other)
    (serves : ∀ other, update.serves other = decide (.primary = other))
    (removes : Removes ctx update removed.afterRemoval)
    (allowed : ctx.state.closing = false → allowNewDial = true)
    (executed : ∀ order, ctx.execute update inputs order =
      removed.executeAfterPrimaryRemoved allowNewDial inputs) : Calls ctx inputs update := by
  have asked : (!removed.state.closing && removed.state.primary.isEmpty &&
      (allowNewDial && removed.hasPrimaryWork inputs) && inputs.hasCapacity) =
      removed.afterRemoval.asks inputs .primary := by
    cases closing : removed.state.closing with
    | true => simp [asks, afterRemoval, closing]
    | false =>
      simp [asks, afterRemoval, closing, allowed (removes.closing.symm.trans closing),
        PeerState.dialing, hasPrimaryWork]
  have dials := @dials_primaryRemoved removed.state (allowNewDial && removed.hasPrimaryWork inputs)
    inputs.hasCapacity
  rw [asked] at dials
  refine .decides .primary _ stays kept serves removes fun order => ?_
  rw [executed]
  exact redials_executePrimaryDial dials

theorem removes_handle {id : CallisId}
    (prepared : ctx.prepare update = ctx.removePrimaryHandle id)
    (resets : ∀ other, update.resets other = decide (.primary = other))
    (serves : update.serves .blob = false) :
    Removes ctx update (ctx.removePrimaryHandle id).afterRemoval := by
  refine ⟨by rw [prepared]; rfl, by rw [prepared]; rfl, ?_, ?_, ?_, fun other => ?_,
    .inr ⟨serves, rfl⟩, ctx.kept_removePrimaryHandle id⟩
  all_goals rw [removePrimaryHandle_eq]
  · rfl
  · rfl
  · rfl
  · rw [resets]
    cases other <;> simp [afterRemoval, PeerState.dialing]

theorem removes_blob (pool : BlobCallisPool)
    (prepared : ctx.prepare update = { ctx with pool })
    (resets : ∀ other, update.resets other = decide (.blob = other)) :
    Removes ctx update { ctx with pool, state := { ctx.state with dialingBlob := false } } := by
  refine ⟨by rw [prepared], by rw [prepared], rfl, rfl, rfl, fun other => ?_, .inl ⟨rfl, rfl⟩,
    fun _ => .inl⟩
  rw [resets]
  cases other <;> simp [PeerState.dialing]

theorem calls (ctx : PeerContext) (inputs : DialInputs) (update : PeerStateUpdate) :
    Calls ctx inputs update := by
  have own (kind other : CallisKind) : (decide (kind = other) || false) = decide (kind = other) :=
    Bool.or_false _
  cases update with
  | connected callis info => exact .connected callis info
  | dialFailed callis =>
    cases callis with
    | primary =>
      have dials := @dials_ensurePrimaryDial { ctx.state with primaryDial := .idle }
        (ctx.hasPrimaryWork inputs) inputs.hasCapacity
      rw [← dialFailedPrimary_eq] at dials
      refine .decides .primary { ctx with state := { ctx.state with primaryDial := .idle } }
        nofun (fun _ => rfl) (own _)
        ⟨rfl, rfl, rfl, rfl, rfl, fun other => ?_, .inl ⟨rfl, rfl⟩, fun _ => .inl⟩
        fun _ => redials_executePrimaryDial dials
      cases other <;> simp [PeerState.dialing, PeerStateUpdate.resets]
    | blob =>
      exact .decides .blob _ nofun (fun _ => rfl) (own _) (removes_blob _ rfl fun _ => rfl)
        fun _ => redials_executeBlobDial dials_ensureBlobDial
  | disconnect callis id =>
    cases callis with
    | primary =>
      cases id with
      | some id =>
        exact calls_of_primaryRemoved nofun (fun _ => rfl) (own _)
          (removes_handle rfl (fun _ => rfl) rfl) (fun _ => rfl) fun _ => rfl
      | none =>
        refine @calls_of_primaryRemoved ctx _ inputs
          { ctx with
            state := { ctx.state with primary := [] }
            agenda := ctx.state.primary.map fun handle : CallisHandle =>
              .callisReplayReady handle.id } true nofun (fun _ => rfl) (own _) ?_ (fun _ => rfl)
          fun _ => rfl
        refine ⟨rfl, rfl, rfl, rfl, rfl, fun other => ?_, .inr ⟨rfl, rfl⟩, fun handle listed =>
          .inr (List.mem_map_of_mem listed)⟩
        cases other <;> simp [PeerState.dialing, PeerStateUpdate.resets, afterRemoval]
    | blob =>
      cases id <;>
      exact .decides .blob _ nofun (fun _ => rfl) (own _) (removes_blob _ rfl fun _ => rfl)
        fun _ => redials_executeBlobDial dials_ensureBlobDial
  | connectionClosed callis id =>
    cases callis with
    | primary =>
      exact calls_of_primaryRemoved nofun (fun _ => rfl) (own _)
        (removes_handle rfl (fun _ => rfl) rfl) (fun active => by rw [active, Bool.not_false])
        fun _ => rfl
    | blob =>
      exact .decides .blob _ nofun (fun _ => rfl) (own _) (removes_blob _ rfl fun _ => rfl)
        fun _ => redials_executeBlobDial dials_ensureBlobDial
  | ensurePrimaryDial =>
    exact .decides .primary ctx nofun (fun _ => rfl)
      (fun other => by cases other <;> rfl)
      ⟨rfl, rfl, rfl, rfl, rfl, fun _ => (Bool.and_true _).symm, .inl ⟨rfl, rfl⟩, fun _ => .inl⟩
      fun _ => redials_executePrimaryDial dials_ensurePrimaryDial
  | ensureBlobDial =>
    exact .decides .blob ctx nofun (fun _ => rfl)
      (fun other => by cases other <;> rfl)
      ⟨rfl, rfl, rfl, rfl, rfl, fun _ => (Bool.and_true _).symm, .inl ⟨rfl, rfl⟩, fun _ => .inl⟩
      fun _ => redials_executeBlobDial dials_ensureBlobDial
  | gracefulClose => exact .gracefulClose

/-! ### What an update leaves -/

theorem primary_prepare (other : update.serves .primary = false) :
    (ctx.prepare update).state.primary = ctx.state.primary := by
  unfold prepare
  split
  · cases other
  · cases other
  · cases other
  all_goals rfl

theorem pool_prepare (other : update.serves .blob = false) :
    (ctx.prepare update).pool = ctx.pool := by
  unfold prepare
  split
  · rw [removePrimaryHandle_eq]
  · rfl
  · rw [removePrimaryHandle_eq]
  · cases other
  · cases other
  · cases other
  · rfl

theorem primary_of_prepare (unlisted : ctx.state.primary = []) :
    (ctx.prepare update).state.primary = [] := by
  unfold prepare removePrimaryHandle
  split <;> simp [unlisted]

/-- What an update leaves of a booking: a dial that was decided on is booked if there still is
capacity when it is launched. -/
structure Books (ctx : PeerContext) (update : PeerStateUpdate) (inputs : DialInputs)
    (kind : CallisKind) (result : PeerContext × PeerStateEffects) : Prop where
  closing : result.1.state.closing = (ctx.state.closing || decide (update = .gracefulClose))
  dialing : result.1.state.dialing kind =
    if result.2.spawns kind = true then inputs.launchCapacity
    else ctx.state.dialing kind && ctx.keepsBooking update kind

/-- A `Connected` starts no dial, and clears the booking of its kind unless it is refused for the
sake of the close. -/
theorem books_connected (ctx : PeerContext) (callis : CallisKind) (info : ConnectionInfo)
    (inputs : DialInputs) (order : List SlotId) (kind : CallisKind) :
    (ctx.effects (.connected callis info) inputs order).spawns kind = false ∧
      Books ctx (.connected callis info) inputs kind
        (ctx.execute (.connected callis info) inputs order) := by
  have open_ : (ctx.state.closing || decide (PeerStateUpdate.connected callis info =
      .gracefulClose)) = ctx.state.closing := by simp
  cases callis with
  | primary =>
    simp only [effects, execute, executeConnectedPrimary, connectedPrimary]
    split_ifs <;> refine ⟨?_, open_.symm, ?_⟩ <;> cases kind <;>
      grind [PeerState.dialing, PeerStateEffects.spawns, keepsBooking, freshRestart]
  | blob =>
    simp only [effects, execute, executeConnectedBlob, connectedBlob]
    cases info.blobSettings <;> split_ifs <;> refine ⟨?_, ?_, ?_⟩ <;> cases kind <;>
      grind [PeerState.dialing, PeerStateEffects.spawns, keepsBooking]

theorem books_gracefulClose (ctx : PeerContext) (inputs : DialInputs) (order : List SlotId)
    (kind : CallisKind) :
    (ctx.effects .gracefulClose inputs order).spawns kind = false ∧
      Books ctx .gracefulClose inputs kind (ctx.execute .gracefulClose inputs order) := by
  simp only [effects, execute, executeGracefulClose, gracefulClose]
  split_ifs <;> refine ⟨?_, ?_, ?_⟩ <;> cases kind <;>
    grind [PeerState.dialing, PeerStateEffects.spawns, keepsBooking]

theorem books (ctx : PeerContext) (update : PeerStateUpdate) (inputs : DialInputs)
    (order : List SlotId) (kind : CallisKind) :
    Books ctx update inputs kind (ctx.execute update inputs order) := by
  cases ctx.calls inputs update with
  | connected callis info => exact (ctx.books_connected callis info inputs order kind).2
  | gracefulClose => exact (ctx.books_gracefulClose inputs order kind).2
  | decides own before stays kept serves removes redials =>
    have done := redials order
    refine ⟨done.flags.2.2.trans (by simp [removes.closing, stays]), ?_⟩
    rw [done.dialing, done.spawns, removes.dialing, kept]
    grind

/-- A booking stays until an update of its kind or a graceful close clears it. -/
theorem keepsBooking_of_kept (kept : update.resets kind = false)
    (stays : update ≠ .gracefulClose) : ctx.keepsBooking update kind = true := by
  cases update with
  | connected callis info => simp [keepsBooking, show callis ≠ kind from of_decide_eq_false kept]
  | gracefulClose => exact absurd rfl stays
  | _ => simp [keepsBooking, kept]

theorem kept_of_keepsBooking (keeps : ctx.keepsBooking update kind = true)
    (active : ctx.state.closing = false) (sessionOpen : ctx.sessionClosing = false) :
    update.resets kind = false := by
  cases update with
  | connected callis info =>
    simpa [keepsBooking, PeerStateUpdate.resets, active, sessionOpen] using keeps
  | gracefulClose => rfl
  | _ => simpa [keepsBooking] using keeps

/-- A dial is decided on only while the peer is not closing, by an update that has just cleared
the booking of its kind or by an ensure while none is booked. -/
theorem spawns_effects {order : List SlotId}
    (spawned : (ctx.effects update inputs order).spawns kind = true) :
    ctx.state.closing = false ∧ (update.resets kind = true ∨
      update.ensures kind = true ∧ ctx.state.dialing kind = false) := by
  cases ctx.calls inputs update with
  | connected callis info =>
    cases (ctx.books_connected callis info inputs order kind).1.symm.trans spawned
  | gracefulClose => cases (ctx.books_gracefulClose inputs order kind).1.symm.trans spawned
  | decides own before _ _ serves removes redials =>
    rw [effects, (redials order).spawns, Bool.and_eq_true, decide_eq_true_iff] at spawned
    obtain ⟨rfl, asked⟩ := spawned
    have idle := asks_active asked
    rw [removes.closing, removes.dialing] at idle
    have served := serves own
    rw [decide_eq_true rfl, PeerStateUpdate.serves] at served
    grind

theorem serves_of_spawns {order : List SlotId}
    (spawned : (ctx.effects update inputs order).spawns kind = true) :
    update.serves kind = true := by
  unfold PeerStateUpdate.serves
  rcases (spawns_effects spawned).2 with resets | ⟨ensures, _⟩
  · rw [resets, Bool.true_or]
  · rw [ensures, Bool.or_true]

/-! ### Needed dials -/

/-- An update of a kind, other than a `Connected`, starts the dial that is asked for. -/
theorem spawns_of_asked
    (asked : ∀ before, Removes ctx update before → before.state.dialing kind = false →
      before.asks inputs kind = true)
    (serves : update.serves kind = true) (gone : ∀ info, update ≠ .connected kind info)
    (order : List SlotId) :
    (ctx.effects update inputs order).spawns kind = true ∨
      update.resets kind = false ∧ ctx.state.dialing kind = true := by
  cases ctx.calls inputs update with
  | connected callis info =>
    have own : callis = kind := of_decide_eq_true ((Bool.or_false _).symm.trans serves)
    exact absurd (by rw [own]) (gone info)
  | gracefulClose => cases serves
  | decides own before _ _ served removes redials =>
    obtain rfl := of_decide_eq_true (served kind ▸ serves)
    cases booked : before.state.dialing own with
    | false => simp [effects, (redials order).spawns, asked before removes booked]
    | true =>
      rw [removes.dialing, Bool.and_eq_true, Bool.not_eq_true'] at booked
      exact .inr booked.symm

/-- The effects of one update never ask for dials of both kinds. -/
theorem launch_of_spawns {order : List SlotId}
    (spawned : (ctx.effects update inputs order).spawns kind = true)
    (capacity : inputs.launchCapacity = true) :
    launch (ctx.effects update inputs order) inputs true = some kind := by
  unfold launch
  cases kind with
  | primary =>
    have primary : (ctx.effects update inputs order).spawnPrimaryDial = true := spawned
    simp [primary, capacity]
  | blob =>
    have other : (ctx.effects update inputs order).spawnPrimaryDial = false := by
      rw [← Bool.not_eq_true]
      intro primary
      have isPrimary : (ctx.effects update inputs order).spawns .primary = true := primary
      cases PeerStateUpdate.serves_unique (serves_of_spawns isPrimary) (serves_of_spawns spawned)
    have blob : (ctx.effects update inputs order).spawnBlobDial = true := spawned
    simp [other, blob, capacity]

/-! ### The callis of the peer -/

/-- Beside a `Connected`, an update leaves the callis that it is prepared with. -/
theorem executeUpdate_callis (order : List SlotId)
    (gone : ∀ callis info, update ≠ .connected callis info) :
    (ctx.executeUpdate update inputs order).state.primary = (ctx.prepare update).state.primary ∧
      (ctx.executeUpdate update inputs order).pool = (ctx.prepare update).pool := by
  cases ctx.calls inputs update with
  | connected callis info => exact absurd rfl (gone callis info)
  | gracefulClose =>
    simp only [executeUpdate, execute, executeGracefulClose]
    split_ifs <;> exact ⟨primary_gracefulClose _, rfl⟩
  | decides own before _ _ serves removes redials =>
    exact ⟨(redials order).primary.trans removes.primary, (redials order).pool.trans removes.pool⟩

theorem sessionClosing_executeUpdate (order : List SlotId) (stays : update ≠ .gracefulClose) :
    (ctx.executeUpdate update inputs order).sessionClosing = ctx.sessionClosing := by
  cases ctx.calls inputs update with
  | connected callis info =>
    cases callis with
    | primary =>
      simp only [executeUpdate, execute, executeConnectedPrimary]
      split_ifs <;> rfl
    | blob =>
      simp only [executeUpdate, execute, executeConnectedBlob]
      split_ifs
      · rfl
      · cases info.blobSettings <;> rfl
  | gracefulClose => exact absurd rfl stays
  | decides own before _ _ serves removes redials =>
    exact (redials order).flags.2.1.trans removes.sessionClosing

theorem flagged_executeUpdate (order : List SlotId) (flagged : ctx.Flagged) :
    (ctx.executeUpdate update inputs order).Flagged := by
  cases ctx.calls inputs update with
  | connected callis info =>
    cases callis with
    | primary =>
      simp only [executeUpdate, execute, executeConnectedPrimary]
      split
      · exact flagged.of_eq rfl (primary_connectedPrimary _ _ _)
      · simp [Flagged]
    | blob =>
      simp only [executeUpdate, execute, executeConnectedBlob]
      split_ifs
      · exact flagged.of_eq rfl (primary_connectedBlob _ _)
      · cases info.blobSettings <;> exact flagged.of_eq rfl (primary_connectedBlob _ _)
  | gracefulClose =>
    simp only [executeUpdate, execute, executeGracefulClose]
    split_ifs <;> exact flagged.of_eq rfl (primary_gracefulClose _)
  | decides own before _ _ serves removes redials =>
    have kept : before.Flagged := by
      rcases removes.flags with ⟨active, primary⟩ | ⟨_, kept⟩
      · exact flagged.of_eq active primary
      · exact kept
    exact kept.of_eq (redials order).flags.1 (redials order).primary

end PeerContext

end AureliaPeering.Peer
