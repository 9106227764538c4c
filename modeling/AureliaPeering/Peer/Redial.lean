import AureliaPeering.Peer.PeerSystem

/-!
Whether a dial that is needed is under way once the state task has nothing left to do.

The task decides on dials only while it handles an update, each update looks at one kind, and a
`Connected` at none.  A need that arises elsewhere is met only if an update of its kind follows.
-/

namespace AureliaPeering.Peer

open Collections Store PeerContext List Option

namespace PeerSystem

def isOpen (system : PeerSystem) : Bool :=
  !system.ctx.state.closing && !system.ctx.sessionClosing

/-- There is work for a callis of the kind, and none to do it. -/
def wanted (system : PeerSystem) : CallisKind → Bool
  | .primary => decide (0 < system.tracked) && !system.ctx.primaryActive
  | .blob =>
    decide (0 < system.streams) && system.ctx.primaryActive && !system.ctx.pool.hasCallis

def dialUnderWay (system : PeerSystem) (kind : CallisKind) : Bool :=
  system.dials.any (·.kind = kind)

/-- A dial is under way, or an update is queued at which the task will look at the kind. -/
def covered (system : PeerSystem) (kind : CallisKind) : Bool :=
  system.dialUnderWay kind || system.queue.any (·.serves kind)

/-- The task is idle, and could dial where a dial is needed. -/
def Redialled (system : PeerSystem) : Prop :=
  system.queue = [] → system.isOpen = true → system.addressKnown = true →
    system.hasCallisCapacity = true →
      ∀ kind, system.wanted kind = true → system.dialUnderWay kind = true

/-- No need arises without an update to follow: a signal finds room in the queue, capacity and an
address come while nothing waits for them, and a primary callis returns to streams that have their
blob callis or an update underway. -/
def Attentive (system : PeerSystem) : SystemLabel → Prop
  | .send => system.queue.length < peerStateQueueSize
  | .acceptRequest =>
    system.ctx.pool.hasCallis = true ∨ system.queue.length < peerStateQueueSize
  | .registerStream =>
    0 < system.streams ∨ system.ctx.primaryActive = false ∨ system.ctx.pool.hasCallis = true ∨
      system.covered .blob = true
  | .callisEnds _ _ | .configure _ =>
    system.hasCallisCapacity = true ∨
      ∀ kind, system.wanted kind = true → system.covered kind = true
  | .updateDialAddr =>
    system.addressKnown = true ∨ ∀ kind, system.ctx.state.dialing kind = false ∧
      (system.wanted kind = true → system.covered kind = true)
  | .process _ _ =>
    match system.queue with
    | .connected .primary _ :: _ =>
      system.streams = 0 ∨ system.ctx.primaryActive = true ∨
        system.ctx.pool.hasCallis = true ∨ system.covered .blob = true
    | _ => True
  | _ => True

instance {p : CallisKind → Prop} [DecidablePred p] : Decidable (∀ kind, p kind) :=
  decidable_of_iff (p .primary ∧ p .blob) ⟨fun ⟨primary, blob⟩ kind =>
    match kind with
    | .primary => primary
    | .blob => blob, fun both => ⟨both .primary, both .blob⟩⟩

instance (system : PeerSystem) (label : SystemLabel) : Decidable (system.Attentive label) :=
  match label with
  | .send | .acceptRequest | .registerStream | .callisEnds .. | .configure _ | .updateDialAddr => by
      unfold Attentive
      infer_instance
  | .process .. => by
      unfold Attentive
      dsimp only
      split <;> infer_instance
  | .settle | .endStream | .hello _ | .acceptFails _ | .acceptSpawns _ | .dialSpawns _
  | .acceptReports .. | .dialReports .. | .dialFails _ | .callisReports .. | .disconnect ..
  | .beginClose | .gracefulClose | .expire _ => instDecidableTrue

/-- What carries a need to its dial.  A booking stands for a dial task, or for a task whose report
is queued. -/
structure Watched (system : PeerSystem) : Prop where
  flagged : system.ctx.Flagged
  settled : ∀ info, .connected .blob info ∈ system.queue → info.blobSettings.isSome = true
  booked : system.isOpen = true → system.addressKnown = true →
    ∀ kind, system.ctx.state.dialing kind = true →
      system.dialUnderWay kind = true ∨ ∃ update ∈ system.queue, update.resets kind = true
  served : system.isOpen = true → system.addressKnown = true → system.hasCallisCapacity = true →
    ∀ kind, system.wanted kind = true → system.covered kind = true

section Steps

variable {system next : PeerSystem} {kind : CallisKind}
variable {update : PeerStateUpdate} {dials : List Attempt}

theorem covered_iff : system.covered kind = true ↔
    system.dialUnderWay kind = true ∨ ∃ update ∈ system.queue, update.serves kind = true := by
  rw [covered, Bool.or_eq_true, List.any_eq_true]

theorem serves_of_resets (resets : update.resets kind = true) :
    update.serves kind = true := by
  rw [PeerStateUpdate.serves, resets, Bool.true_or]

theorem Watched.beside (watched : system.Watched) (ctx : next.ctx = system.ctx)
    (address : next.addressKnown = system.addressKnown)
    (queue : ∀ update ∈ system.queue, update ∈ next.queue)
    (settled : ∀ info, .connected .blob info ∈ next.queue →
      .connected .blob info ∈ system.queue ∨ info.blobSettings.isSome = true)
    (dials : ∀ kind, system.dialUnderWay kind = true →
      next.dialUnderWay kind = true ∨ ∃ update ∈ next.queue, update.resets kind = true)
    (needs : next.hasCallisCapacity = true → ∀ kind, next.wanted kind = true →
      (system.hasCallisCapacity = true ∧ system.wanted kind = true) ∨
        system.covered kind = true ∨ next.covered kind = true) :
    next.Watched where
  flagged := ctx ▸ watched.flagged
  settled info listed := (settled info listed).elim (watched.settled info) id
  booked := by
    intro isOpen known kind dialing
    unfold PeerSystem.isOpen at isOpen
    rw [ctx] at isOpen dialing
    rw [address] at known
    rcases watched.booked isOpen known kind dialing with underWay | ⟨update, listed, resets⟩
    · exact dials kind underWay
    · exact .inr ⟨update, queue update listed, resets⟩
  served := by
    intro isOpen known capacity kind wanted
    have carried (covered : system.covered kind = true) : next.covered kind = true := by
      rw [covered_iff] at covered ⊢
      rcases covered with underWay | ⟨update, listed, serves⟩
      · exact (dials kind underWay).imp_right fun ⟨update, listed, resets⟩ =>
          ⟨update, listed, serves_of_resets resets⟩
      · exact .inr ⟨update, queue update listed, serves⟩
    unfold PeerSystem.isOpen at isOpen
    rw [ctx] at isOpen
    rw [address] at known
    rcases needs capacity kind wanted with ⟨before, needed⟩ | covered | covered
    · exact carried (watched.served isOpen known before kind needed)
    · exact carried covered
    · exact covered

theorem Watched.aside (watched : system.Watched) (ctx : next.ctx = system.ctx)
    (address : next.addressKnown = system.addressKnown) (queue : next.queue = system.queue)
    (dials : ∀ kind, system.dialUnderWay kind = true → next.dialUnderWay kind = true)
    (needs : next.hasCallisCapacity = true → ∀ kind, next.wanted kind = true →
      (system.hasCallisCapacity = true ∧ system.wanted kind = true) ∨
        system.covered kind = true ∨ next.covered kind = true) :
    next.Watched := by
  refine watched.beside ctx address ?_ ?_ ?_ needs
  · intro update listed
    rwa [queue]
  · intro info listed
    rw [queue] at listed
    exact .inl listed
  · intro kind underWay
    exact .inl (dials kind underWay)

theorem Watched.closed (flagged : next.ctx.Flagged)
    (settled : ∀ info, .connected .blob info ∈ next.queue → info.blobSettings.isSome = true)
    (closed : next.isOpen = false) : next.Watched where
  flagged := flagged
  settled := settled
  booked isOpen := by rw [closed] at isOpen; cases isOpen
  served isOpen := by rw [closed] at isOpen; cases isOpen

theorem Watched.queued (watched : system.Watched)
    (settled : ∀ info, update = .connected .blob info → info.blobSettings.isSome = true)
    {accepts : List Attempt} {ended : List (CallisKind × CallisId)}
    (dialled : ∀ kind, system.dialUnderWay kind = true →
      dials.any (·.kind = kind) = true ∨ update.resets kind = true)
    (queued : ({ system with dials, accepts, ended } : PeerSystem).enqueue update = some next) :
    next.Watched := by
  obtain ⟨_, ⟨⟩⟩ := ite_none_right_eq_some.mp queued
  refine watched.beside rfl rfl ?_ ?_ ?_ ?_
  · exact fun _ listed => mem_append_left _ listed
  · intro info listed
    rcases mem_append.mp listed with before | last
    · exact .inl before
    · exact .inr (settled info (mem_singleton.mp last).symm)
  · intro kind underWay
    exact (dialled kind underWay).imp_right fun resets =>
      ⟨update, mem_append_right _ (mem_singleton_self _), resets⟩
  · intro capacity kind wanted
    exact .inl ⟨capacity, wanted⟩

theorem dialUnderWay_erase {attempt : Attempt}
    (underWay : dials.any (·.kind = kind) = true) :
    (dials.erase attempt).any (·.kind = kind) = true ∨ attempt.kind = kind := by
  obtain ⟨dial, listed, isKind⟩ := any_eq_true.mp underWay
  by_cases same : dial = attempt
  · exact .inr (same ▸ of_decide_eq_true isKind)
  · exact .inl (any_eq_true.mpr ⟨dial, (mem_erase_of_ne same).mpr listed, isKind⟩)

/-! ### The turn of the state task -/

section Execute

variable {update : PeerStateUpdate} {otherWork : Bool} {now : Instant} {info : ConnectionInfo}
  {ctx : PeerContext} {after : PeerSystem} {callis : CallisKind}

/-- The system before the state task has taken the update. -/
def before (system : PeerSystem) (update : PeerStateUpdate) : PeerSystem :=
  { system with queue := update :: system.queue }

theorem isOpen_iff : system.isOpen = true ↔
    system.ctx.state.closing = false ∧ system.ctx.sessionClosing = false := by
  simp [isOpen]

theorem isOpen_execute (isOpen : (system.execute update otherWork now).isOpen = true) :
    system.isOpen = true ∧ update ≠ .gracefulClose := by
  obtain ⟨closing, sessionClosing⟩ := isOpen_iff.mp isOpen
  have spec := (system.ctx.books update (system.inputs otherWork) [] .primary).closing
  have still : (system.ctx.state.closing || decide (update = .gracefulClose)) = false :=
    spec.symm.trans closing
  rw [Bool.or_eq_false_iff, decide_eq_false_iff_not] at still
  refine ⟨isOpen_iff.mpr ⟨still.1, ?_⟩, still.2⟩
  rw [← sessionClosing]
  exact (sessionClosing_executeUpdate [] still.2).symm

theorem dialUnderWay_of_spawns (known : system.addressKnown = true)
    (capacity : system.hasCallisCapacity = true)
    (spawned : (system.ctx.effects update (system.inputs otherWork) []).spawns kind = true) :
    (system.execute update otherWork now).dialUnderWay kind = true := by
  have launched := launch_of_spawns spawned capacity
  simp [dialUnderWay, execute, known, launched]

theorem dialUnderWay_execute (underWay : system.dialUnderWay kind = true) :
    (system.execute update otherWork now).dialUnderWay kind = true := by
  unfold dialUnderWay execute
  rw [any_append, Bool.or_eq_true]
  exact .inl underWay

theorem Watched.booked_later (watched : (system.before update).Watched)
    (isOpen : system.isOpen = true) (known : system.addressKnown = true)
    (kept : update.resets kind = false) (booked : system.ctx.state.dialing kind = true) :
    (system.execute update otherWork now).dialUnderWay kind = true ∨
      ∃ later ∈ system.queue, later.resets kind = true := by
  rcases watched.booked isOpen known kind booked with underWay | ⟨later, listed, resets⟩
  · exact .inl (dialUnderWay_execute underWay)
  · rcases mem_cons.mp listed with rfl | listed
    · cases kept.symm.trans resets
    · exact .inr ⟨later, listed, resets⟩

/-- What a turn keeps of a booking: a dial task, or an update that is still queued. -/
theorem booked_execute (watched : (system.before update).Watched) (isOpen : system.isOpen = true)
    (known : system.addressKnown = true)
    (dialing : (system.execute update otherWork now).ctx.state.dialing kind = true) :
    (system.execute update otherWork now).dialUnderWay kind = true ∨
      ∃ later ∈ system.queue, later.resets kind = true := by
  have spec := (system.ctx.books update (system.inputs otherWork) [] kind).dialing
  have outcome : (if (system.ctx.effects update (system.inputs otherWork) []).spawns kind = true
      then system.hasCallisCapacity
      else system.ctx.state.dialing kind && system.ctx.keepsBooking update kind) = true := by
    refine spec.symm.trans ?_
    cases kind <;> exact dialing
  split_ifs at outcome with spawned
  · exact .inl (dialUnderWay_of_spawns known outcome spawned)
  · obtain ⟨booked, untouched⟩ := (Bool.and_eq_true _ _).mp outcome
    obtain ⟨active, sessionOpen⟩ := isOpen_iff.mp isOpen
    have kept := kept_of_keepsBooking untouched active sessionOpen
    exact watched.booked_later isOpen known kept booked

theorem flagged_execute (flagged : system.ctx.Flagged) :
    (system.execute update otherWork now).ctx.Flagged :=
  flagged_executeUpdate [] flagged

/-- A `Connected` of an open peer meets the need of its kind. -/
theorem not_wanted_connected (isOpen : system.isOpen = true)
    (settled : kind = .blob → info.blobSettings.isSome = true) :
    (system.execute (.connected kind info) otherWork now).wanted kind = false := by
  obtain ⟨active, sessionOpen⟩ := isOpen_iff.mp isOpen
  cases kind with
  | primary =>
    have entered : (system.execute (.connected .primary info) otherWork now).ctx.primaryActive =
        true := by
      simp [execute, updateImpairedSince, executeUpdate, PeerContext.execute,
        executeConnectedPrimary, PeerStateMachine.connectedPrimary, active,
        sessionOpen]
    rw [wanted, entered, Bool.not_true, Bool.and_false]
  | blob =>
    obtain ⟨_, negotiated⟩ := isSome_iff_exists.mp (settled rfl)
    have entered :
        (system.execute (.connected .blob info) otherWork now).ctx.pool.hasCallis = true := by
      simp only [execute, updateImpairedSince, executeUpdate, PeerContext.execute,
        executeConnectedBlob, PeerStateMachine.connectedBlob, active, negotiated]
      exact BlobCallisPool.hasCallis_addCallis _ _ _
    rw [wanted, entered, Bool.not_true, Bool.and_false]

/-- Beside a `Connected`, a turn leaves the tracked messages, the streams and the callis that its
update is prepared with. -/
structure Plain (system : PeerSystem) (update : PeerStateUpdate) (after : PeerSystem) : Prop where
  tracked : after.tracked = system.tracked
  streams : after.streams = system.streams
  primary : after.ctx.state.primary = (system.ctx.prepare update).state.primary
  pool : after.ctx.pool = (system.ctx.prepare update).pool
  flagged : after.ctx.Flagged

theorem plain_execute (flagged : system.ctx.Flagged)
    (gone : ∀ callis info, update ≠ .connected callis info) :
    system.Plain update (system.execute update otherWork now) := by
  have quiet (effects : PeerStateEffects) : restarts effects update = false := by
    cases update with
    | connected callis info => exact absurd rfl (gone callis info)
    | _ => rfl
  have callis := @executeUpdate_callis system.ctx update (system.inputs otherWork) [] gone
  exact ⟨by simp [execute, quiet], by simp [execute, quiet], callis.1, callis.2,
    flagged_execute flagged⟩

theorem flagged_eq_false (flagged : ctx.Flagged) :
    ctx.primaryActive = false ↔ ctx.state.primary = [] := by
  rw [show ctx.primaryActive = _ from flagged]
  simp

theorem flagged_eq_true (flagged : ctx.Flagged) :
    ctx.primaryActive = true ↔ ctx.state.primary ≠ [] := by
  rw [← Bool.not_eq_false, Ne, flagged_eq_false flagged]

theorem spawns_of_wanted (plain : system.Plain update after)
    (flagged : system.ctx.Flagged) (isOpen : system.isOpen = true)
    (capacity : system.hasCallisCapacity = true)
    (gone : ∀ callis info, update ≠ .connected callis info) (serves : update.serves kind = true)
    (wanted : after.wanted kind = true) :
    (system.ctx.effects update (system.inputs otherWork) []).spawns kind = true ∨
      update.resets kind = false ∧ system.ctx.state.dialing kind = true := by
  obtain ⟨active, sessionOpen⟩ := isOpen_iff.mp isOpen
  refine spawns_of_asked (fun before removes idle => ?_) serves (gone kind) []
  cases kind with
  | primary =>
    simp only [PeerSystem.wanted, Bool.and_eq_true, decide_eq_true_eq, Bool.not_eq_true'] at wanted
    obtain ⟨tracked, inactive⟩ := wanted
    have unlisted : before.state.primary = [] :=
      removes.primary.trans (plain.primary ▸ (flagged_eq_false plain.flagged).mp inactive)
    rw [plain.tracked] at tracked
    simp [asks, removes.closing, active, unlisted, idle, hasPrimaryWork, removes.sessionClosing,
      sessionOpen, inputs, capacity, tracked]
  | blob =>
    simp only [PeerSystem.wanted, Bool.and_eq_true, decide_eq_true_eq, Bool.not_eq_true'] at wanted
    obtain ⟨⟨streams, primary⟩, unpooled⟩ := wanted
    have listed : system.ctx.state.primary ≠ [] := by
      intro unlisted
      apply (flagged_eq_true plain.flagged).mp primary
      rw [plain.primary]
      exact primary_of_prepare unlisted
    have flag : before.primaryActive = true := by
      rcases removes.flags with ⟨same, _⟩ | ⟨other, _⟩
      · exact same.trans ((flagged_eq_true flagged).mpr listed)
      · cases other.symm.trans serves
    rw [plain.streams] at streams
    rw [plain.pool, ← removes.pool] at unpooled
    simp [asks, removes.closing, active, flag, idle, unpooled, inputs, capacity, streams]

theorem wanted_of_plain (plain : system.Plain update after)
    (flagged : system.ctx.Flagged) (other : update.serves kind = false)
    (wanted : after.wanted kind = true) : system.wanted kind = true := by
  cases kind with
  | primary =>
    simp only [PeerSystem.wanted, Bool.and_eq_true, decide_eq_true_eq,
      Bool.not_eq_true'] at wanted ⊢
    refine ⟨plain.tracked ▸ wanted.1, ?_⟩
    rw [flagged_eq_false flagged, ← primary_prepare other, ← plain.primary]
    exact (flagged_eq_false plain.flagged).mp wanted.2
  | blob =>
    simp only [PeerSystem.wanted, Bool.and_eq_true, decide_eq_true_eq,
      Bool.not_eq_true'] at wanted ⊢
    obtain ⟨⟨streams, primary⟩, unpooled⟩ := wanted
    refine ⟨⟨plain.streams ▸ streams, ?_⟩, ?_⟩
    · rw [flagged_eq_true flagged]
      intro unlisted
      apply (flagged_eq_true plain.flagged).mp primary
      rw [plain.primary]
      exact primary_of_prepare unlisted
    · rw [← pool_prepare other, ← plain.pool]
      exact unpooled

/-- A `Connected` of the other kind arouses no need, but a primary callis lets the streams want
theirs. -/
theorem wanted_of_connected (other : callis ≠ kind) (isOpen : system.isOpen = true)
    (wanted : (system.execute (.connected callis info) otherWork now).wanted kind = true) :
    system.wanted kind = true ∨ callis = .primary ∧ kind = .blob ∧
      system.ctx.primaryActive = false ∧ 0 < system.streams ∧
        system.ctx.pool.hasCallis = false := by
  obtain ⟨active, sessionOpen⟩ := isOpen_iff.mp isOpen
  cases callis with
  | primary =>
    cases kind with
    | primary => exact absurd rfl other
    | blob =>
      have kept : (system.execute (.connected .primary info) otherWork now).streams =
            (if info.freshSession then 0 else system.streams) ∧
          (info.freshSession = false →
            (system.execute (.connected .primary info) otherWork now).ctx.pool =
              system.ctx.pool) := by
        refine ⟨by simp [execute, restarts, effects, PeerContext.execute,
          executeConnectedPrimary, PeerStateMachine.connectedPrimary, active, sessionOpen], ?_⟩
        intro resumed
        simp [execute, updateImpairedSince, executeUpdate, PeerContext.execute,
          executeConnectedPrimary, PeerStateMachine.connectedPrimary, active,
          sessionOpen, resumed]
      simp only [PeerSystem.wanted, Bool.and_eq_true, decide_eq_true_eq,
        Bool.not_eq_true'] at wanted ⊢
      obtain ⟨⟨streams, _⟩, unpooled⟩ := wanted
      rw [kept.1] at streams
      cases resumed : info.freshSession with
      | true =>
        rw [resumed] at streams
        cases streams
      | false =>
        rw [resumed] at streams
        rw [kept.2 resumed] at unpooled
        cases before : system.ctx.primaryActive with
        | true => exact .inl ⟨⟨streams, rfl⟩, unpooled⟩
        | false => exact .inr ⟨trivial, trivial, rfl, streams, unpooled⟩
  | blob =>
    cases kind with
    | blob => exact absurd rfl other
    | primary =>
      refine .inl ?_
      have kept : (system.execute (.connected .blob info) otherWork now).ctx.primaryActive =
          system.ctx.primaryActive := by
        simp only [execute, updateImpairedSince, executeUpdate, PeerContext.execute,
          executeConnectedBlob]
        split
        · rfl
        · cases info.blobSettings <;> rfl
      simp only [PeerSystem.wanted, kept] at wanted ⊢
      exact wanted

/-- What covered a kind besides the update in hand still does. -/
theorem covered_execute (covered : (system.before update).covered kind = true)
    (other : update.serves kind = false) :
    (system.execute update otherWork now).covered kind = true := by
  rw [covered_iff] at covered ⊢
  rcases covered with underWay | ⟨later, listed, serves⟩
  · exact .inl (dialUnderWay_execute underWay)
  · rcases mem_cons.mp listed with rfl | listed
    · cases other.symm.trans serves
    · exact .inr ⟨later, listed, serves⟩

section Turn

variable (watched : (system.before update).Watched) (isOpen : system.isOpen = true)
  (known : system.addressKnown = true) (capacity : system.hasCallisCapacity = true)
  (wanted : (system.execute update otherWork now).wanted kind = true)

include watched isOpen known capacity wanted

/-- After a `Connected` a kind is covered if it was, and if the streams that a returning primary
finds were. -/
theorem served_connected (isConnected : update = .connected callis info)
    (returning : callis = .primary → system.streams = 0 ∨ system.ctx.primaryActive = true ∨
      system.ctx.pool.hasCallis = true ∨ (system.before update).covered .blob = true) :
    (system.execute update otherWork now).covered kind = true := by
  subst isConnected
  by_cases same : callis = kind
  · subst same
    have settled : callis = .blob → info.blobSettings.isSome = true := by
      rintro rfl
      exact watched.settled info mem_cons_self
    rw [not_wanted_connected isOpen settled] at wanted
    cases wanted
  · have other : (PeerStateUpdate.connected callis info).serves kind = false := by
      simp [PeerStateUpdate.serves, PeerStateUpdate.resets, PeerStateUpdate.ensures, same]
    refine covered_execute ?_ other
    rcases wanted_of_connected same isOpen wanted with needed | ⟨rfl, rfl, lost, streams, unpooled⟩
    · exact watched.served isOpen known capacity kind needed
    · rcases returning rfl with idle | active | pooled | covered
      · exact absurd idle (Nat.ne_of_gt streams)
      · exact absurd active (Bool.eq_false_iff.mp lost)
      · exact absurd pooled (Bool.eq_false_iff.mp unpooled)
      · exact covered

theorem served_plain (gone : ∀ callis info, update ≠ .connected callis info) :
    (system.execute update otherWork now).covered kind = true := by
  have flagged : system.ctx.Flagged := watched.flagged
  have plain : system.Plain update (system.execute update otherWork now) :=
    plain_execute flagged gone
  cases serves : update.serves kind with
  | false =>
    have needed := wanted_of_plain plain flagged serves wanted
    exact covered_execute (watched.served isOpen known capacity kind needed) serves
  | true =>
    rw [covered_iff]
    rcases spawns_of_wanted plain flagged isOpen capacity gone serves wanted with
      spawned | ⟨kept, booked⟩
    · exact .inl (dialUnderWay_of_spawns known capacity spawned)
    · exact (watched.booked_later isOpen known kept booked).imp_right
        fun ⟨later, listed, resets⟩ => ⟨later, listed, serves_of_resets resets⟩

end Turn

theorem watched_execute (watched : (system.before update).Watched)
    (returning : ∀ info, update = .connected .primary info → system.streams = 0 ∨
      system.ctx.primaryActive = true ∨ system.ctx.pool.hasCallis = true ∨
        (system.before update).covered .blob = true) :
    (system.execute update otherWork now).Watched where
  flagged := flagged_execute watched.flagged
  settled info listed := watched.settled info (mem_cons_of_mem _ listed)
  booked isOpen known _ dialing := booked_execute watched (isOpen_execute isOpen).1 known dialing
  served := by
    intro stillOpen known capacity kind wanted
    have isOpen : system.isOpen = true := (isOpen_execute stillOpen).1
    by_cases connected : ∃ callis info, update = .connected callis info
    · obtain ⟨callis, info, isConnected⟩ := connected
      refine served_connected watched isOpen known capacity wanted isConnected ?_
      rintro rfl
      exact returning info isConnected
    · refine served_plain watched isOpen known capacity wanted ?_
      intro callis info isConnected
      exact connected ⟨callis, info, isConnected⟩

end Execute

/-! ### Runs -/

variable {streams tracked : Nat}

theorem watched_signal (watched : system.Watched) (room : system.queue.length < peerStateQueueSize)
    (unconnected : ∀ info, update ≠ .connected .blob info)
    (needs : ∀ kind, ({ system with tracked, streams } : PeerSystem).wanted kind = true →
      system.wanted kind = true ∨ update.serves kind = true) :
    (({ system with tracked, streams } : PeerSystem).trySignalPeerStateEnsure update).Watched := by
  rw [trySignalPeerStateEnsure, if_pos room]
  refine watched.beside rfl rfl ?_ ?_ ?_ ?_
  · exact fun _ listed => mem_append_left _ listed
  · intro info listed
    rcases mem_append.mp listed with before | last
    · exact .inl before
    · exact absurd (mem_singleton.mp last).symm (unconnected info)
  · exact fun _ underWay => .inl underWay
  · intro capacity kind wanted
    rcases needs kind wanted with needed | serves
    · exact .inl ⟨capacity, needed⟩
    · exact .inr (.inr (covered_iff.mpr
        (.inr ⟨update, mem_append_right _ (mem_singleton_self _), serves⟩)))

theorem wanted_mono (fewer : tracked ≤ system.tracked)
    (less : streams ≤ system.streams)
    (wanted : ({ system with tracked, streams } : PeerSystem).wanted kind = true) :
    system.wanted kind = true := by
  cases kind with
  | primary =>
    simp only [PeerSystem.wanted, Bool.and_eq_true, decide_eq_true_eq] at wanted ⊢
    exact ⟨by omega, wanted.2⟩
  | blob =>
    simp only [PeerSystem.wanted, Bool.and_eq_true, decide_eq_true_eq] at wanted ⊢
    exact ⟨⟨by omega, wanted.1.2⟩, wanted.2⟩

theorem hasCallisCapacity_of_cons {accepts : List Attempt}
    {callis : CallisKind × CallisId} {nextCallisId : CallisId}
    (capacity : ({ system with dials, accepts, running := callis :: system.running, nextCallisId } :
      PeerSystem).hasCallisCapacity = true) : system.hasCallisCapacity = true := by
  have below : (callis :: system.running).length < system.maxParallel := of_decide_eq_true capacity
  exact decide_eq_true (Nat.lt_of_succ_lt below)

theorem settled_connectionInfo {callis : CallisKind} {id : CallisId} {freshSession : Bool}
    {settings : BlobCallisSettings} {info : ConnectionInfo}
    (isBlob : PeerStateUpdate.connected callis (connectionInfo callis id freshSession settings) =
      .connected .blob info) : info.blobSettings.isSome = true := by
  cases callis with
  | primary => cases isBlob
  | blob =>
    cases isBlob
    rfl

theorem watched_step {label : SystemLabel} (watched : system.Watched)
    (stepped : system.step label = some next) (attentive : system.Attentive label) :
    next.Watched := by
  cases label with
  | send =>
    cases stepped
    refine watched_signal watched attentive nofun ?_
    intro kind wanted
    cases kind with
    | primary => exact .inr rfl
    | blob => exact .inl wanted
  | settle =>
    cases stepped
    refine watched.aside rfl rfl rfl (fun _ underWay => underWay) ?_
    exact fun capacity kind wanted =>
      .inl ⟨capacity, wanted_mono (Nat.sub_le _ _) le_rfl wanted⟩
  | acceptRequest =>
    simp only [step] at stepped
    split at stepped
    · rename_i pooled
      cases stepped
      refine watched.aside rfl rfl rfl (fun _ underWay => underWay) ?_
      intro capacity kind wanted
      cases kind with
      | primary => exact .inl ⟨capacity, wanted⟩
      | blob => simp [PeerSystem.wanted, pooled] at wanted
    · rename_i unpooled
      cases stepped
      refine watched_signal watched (attentive.resolve_left unpooled) nofun ?_
      intro kind wanted
      cases kind with
      | primary => exact .inl wanted
      | blob => exact .inr rfl
  | registerStream =>
    cases stepped
    refine watched.aside rfl rfl rfl (fun _ underWay => underWay) ?_
    intro capacity kind wanted
    cases kind with
    | primary => exact .inl ⟨capacity, wanted⟩
    | blob =>
      simp only [PeerSystem.wanted, Bool.and_eq_true, decide_eq_true_eq,
        Bool.not_eq_true'] at wanted ⊢
      rcases attentive with streams | lost | pooled | covered
      · exact .inl ⟨capacity, ⟨streams, wanted.1.2⟩, wanted.2⟩
      · exact absurd wanted.1.2 (Bool.eq_false_iff.mp lost)
      · exact absurd pooled (Bool.eq_false_iff.mp wanted.2)
      · exact .inr (.inl covered)
  | endStream =>
    cases stepped
    refine watched.aside rfl rfl rfl (fun _ underWay => underWay) ?_
    exact fun capacity kind wanted =>
      .inl ⟨capacity, wanted_mono le_rfl (Nat.sub_le _ _) wanted⟩
  | hello kind =>
    simp only [step] at stepped
    split at stepped
    · cases stepped
      exact watched.aside rfl rfl rfl (fun _ underWay => underWay)
        fun capacity _ wanted => .inl ⟨capacity, wanted⟩
    · cases stepped
      exact watched
  | acceptFails kind =>
    obtain ⟨_, ⟨⟩⟩ := ite_none_right_eq_some.mp stepped
    exact watched.aside rfl rfl rfl (fun _ underWay => underWay)
      fun capacity _ wanted => .inl ⟨capacity, wanted⟩
  | acceptSpawns kind =>
    obtain ⟨_, ⟨⟩⟩ := ite_none_right_eq_some.mp stepped
    refine watched.aside rfl rfl rfl (fun _ underWay => underWay) ?_
    exact fun capacity _ wanted => .inl ⟨hasCallisCapacity_of_cons capacity, wanted⟩
  | dialSpawns kind =>
    obtain ⟨_, ⟨⟩⟩ := ite_none_right_eq_some.mp stepped
    refine watched.aside rfl rfl rfl ?_ ?_
    · intro other underWay
      unfold dialUnderWay
      rw [any_cons, Bool.or_eq_true, decide_eq_true_eq]
      exact (@dialUnderWay_erase _ _ ⟨kind, none⟩ underWay).symm
    · exact fun capacity _ wanted => .inl ⟨hasCallisCapacity_of_cons capacity, wanted⟩
  | acceptReports kind id settings =>
    obtain ⟨_, queued⟩ := ite_none_right_eq_some.mp stepped
    exact watched.queued (fun _ isBlob => settled_connectionInfo isBlob)
      (fun _ underWay => .inl underWay) queued
  | dialReports kind id freshSession settings =>
    obtain ⟨_, queued⟩ := ite_none_right_eq_some.mp stepped
    exact watched.queued (fun _ isBlob => settled_connectionInfo isBlob)
      (fun _ underWay => (dialUnderWay_erase underWay).imp_right decide_eq_true) queued
  | dialFails kind =>
    obtain ⟨_, queued⟩ := ite_none_right_eq_some.mp stepped
    exact watched.queued (fun _ isBlob => by cases isBlob)
      (fun _ underWay => (dialUnderWay_erase underWay).imp_right decide_eq_true) queued
  | callisEnds kind id =>
    obtain ⟨_, ⟨⟩⟩ := ite_none_right_eq_some.mp stepped
    refine watched.aside rfl rfl rfl (fun _ underWay => underWay) ?_
    exact fun _ kind wanted => attentive.imp (fun capacity => ⟨capacity, wanted⟩)
      fun covered => .inl (covered kind wanted)
  | callisReports kind id =>
    obtain ⟨_, queued⟩ := ite_none_right_eq_some.mp stepped
    exact watched.queued (fun _ isBlob => by cases isBlob) (fun _ underWay => .inl underWay) queued
  | disconnect kind id | gracefulClose =>
    exact watched.queued (fun _ isBlob => by cases isBlob) (fun _ underWay => .inl underWay) stepped
  | beginClose =>
    cases stepped
    exact .closed watched.flagged watched.settled (Bool.and_false _)
  | process otherWork now =>
    simp only [step] at stepped
    split at stepped
    · cases stepped
    · rename_i update rest queue
      cases stepped
      obtain ⟨_, _, dials, accepts, running, ended, _, _, _, tracked, streams⟩ := system
      cases queue
      refine watched_execute watched ?_
      rintro _ rfl
      exact attentive
  | expire now =>
    obtain ⟨_, ⟨⟩⟩ := ite_none_right_eq_some.mp stepped
    exact .closed rfl watched.settled rfl
  | updateDialAddr =>
    cases stepped
    rcases attentive with known | quiet
    · exact ⟨watched.flagged, watched.settled, fun isOpen _ => watched.booked isOpen known,
        fun isOpen _ => watched.served isOpen known⟩
    · refine ⟨watched.flagged, watched.settled, ?_, ?_⟩
      · intro _ _ kind dialing
        exact absurd dialing (Bool.eq_false_iff.mp (quiet kind).1)
      · exact fun _ _ _ kind wanted => (quiet kind).2 wanted
  | configure limit =>
    cases stepped
    refine watched.aside rfl rfl rfl (fun _ underWay => underWay) ?_
    exact fun _ kind wanted => attentive.imp (fun capacity => ⟨capacity, wanted⟩)
      fun covered => .inl (covered kind wanted)

end Steps

end PeerSystem

end AureliaPeering.Peer
