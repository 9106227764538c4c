import AureliaPeering.Peer.PeerSystem

/-!
Chunks that arrive before the settings of their callis are registered.

The reader of a callis starts when the callis is spawned.  Its settings are registered by the state
task, when it processes the `Connected` that the accept or dial task reports after that.
-/

namespace AureliaPeering.Peer

open Collections PeerContext List Option

/-- A peer, with the callis that have ended because there were no settings for a chunk. -/
structure ChunkRun where
  peer : PeerSystem
  rejected : List CallisId

inductive ChunkLabel where
  | peer (label : SystemLabel)
  /-- The reader of a blob callis takes a chunk frame. -/
  | receiveChunk (id : CallisId)
deriving DecidableEq

def PeerStateUpdate.registers : PeerStateUpdate → CallisId → Bool
  | .connected .blob info, id => info.handle.id = id
  | _, _ => false

/-- A fresh session starts with an empty pool, and a disconnect may be about every blob callis. -/
def PeerStateUpdate.unregisters : PeerStateUpdate → CallisId → Bool
  | .connected .primary info, _ => info.freshSession
  | .disconnect .blob other, id => other.all (· = id)
  | .connectionClosed .blob other, id => other = id
  | _, _ => false

namespace PeerSystem

def settingsForCallis (system : PeerSystem) (id : CallisId) : Option BlobCallisSettings :=
  system.ctx.pool.settings.lookup id

/-- The `Connected` of the callis is still to be reported or processed. -/
def awaits (system : PeerSystem) (id : CallisId) : Bool :=
  decide (⟨.blob, some id⟩ ∈ system.accepts) || decide (⟨.blob, some id⟩ ∈ system.dials) ||
    system.queue.any (·.registers id)

/-- Every spawned callis has been reported and every update processed. -/
def caughtUp (system : PeerSystem) : Bool :=
  system.queue.isEmpty && (system.accepts ++ system.dials).all (·.callis.isNone)

/-- The step drops the callis from the pool, or refuses to enter it. -/
def drops (system : PeerSystem) : SystemLabel → CallisId → Bool
  | .process otherWork _, id => system.queue.head?.any fun update =>
    update.unregisters id || update.registers id &&
      (refused (system.ctx.effects update (system.inputs otherWork) []) update).isSome
  | .expire _, _ => true
  | _, _ => false

/-- The step drops no running blob callis. -/
def Spares (system : PeerSystem) (label : SystemLabel) : Prop :=
  ∀ callis ∈ system.running, callis.1 = .blob → system.drops label callis.2 = false

instance (system : PeerSystem) (label : SystemLabel) : Decidable (system.Spares label) :=
  List.decidableBAll _ _

end PeerSystem

namespace ChunkRun

def step (run : ChunkRun) : ChunkLabel → Option ChunkRun
  | .peer label => (run.peer.step label).map fun peer => { run with peer }
  | .receiveChunk id =>
    if run.peer.running.contains (.blob, id) then
      match run.peer.settingsForCallis id with
      | some _ => some run
      | none => (run.peer.step (.callisEnds .blob id)).map fun peer => ⟨peer, id :: run.rejected⟩
    else none

def system : Machine.System ChunkRun ChunkLabel :=
  .ofStep (fun start => ∃ limit addressKnown, start = ⟨.new limit addressKnown, []⟩) step

/-- Chunks are read while the state task has caught up, and no running blob callis is dropped. -/
def Registered (run : ChunkRun) : ChunkLabel → Prop
  | .peer label => run.peer.Spares label
  | .receiveChunk _ => run.peer.caughtUp = true

instance (run : ChunkRun) (label : ChunkLabel) : Decidable (run.Registered label) := by
  unfold Registered
  split <;> infer_instance

end ChunkRun

namespace PeerSystem

variable {system next : PeerSystem} {label : SystemLabel} {id : CallisId}

/-- The settings of a running callis are there, or still to come. -/
def Settled (system : PeerSystem) : Prop :=
  ∀ id, (.blob, id) ∈ system.running → system.awaits id = true ∨ system.settingsForCallis id ≠ none

theorem settings_execute {info : ConnectionInfo} {otherWork : Bool} {now : Instant}
    (taken : refused (system.ctx.effects (.connected .blob info) (system.inputs otherWork) [])
      (.connected .blob info) = none) :
    (system.execute (.connected .blob info) otherWork now).settingsForCallis info.handle.id ≠
      none := by
  have admitted : system.ctx.state.closing = false ∧ ¬info.blobSettings = none := by
    cases active : system.ctx.state.closing <;> cases negotiated : info.blobSettings <;>
    simp [refused, effects, PeerContext.execute, executeConnectedBlob,
      PeerStateMachine.connectedBlob, active, negotiated] at taken ⊢
  obtain ⟨active, negotiated⟩ := admitted
  obtain ⟨settings, isSettings⟩ := ne_none_iff_exists'.mp negotiated
  simp [settingsForCallis, execute, updateImpairedSince, executeUpdate, PeerContext.execute,
    executeConnectedBlob, PeerStateMachine.connectedBlob, active, isSettings,
    BlobCallisPool.addCallis]

theorem settings_executeUpdate {ctx : PeerContext} {update : PeerStateUpdate} {inputs : DialInputs}
    {order : List Store.SlotId} (held : ctx.pool.settings.lookup id ≠ none)
    (kept : update.unregisters id = false) :
    (ctx.executeUpdate update inputs order).pool.settings.lookup id ≠ none := by
  by_cases connects : ∃ callis info, update = .connected callis info
  · obtain ⟨callis, info, rfl⟩ := connects
    cases callis with
    | primary =>
      have same : info.freshSession = false := kept
      simp only [executeUpdate, PeerContext.execute, executeConnectedPrimary,
        PeerStateMachine.connectedPrimary, same]
      split_ifs <;> first | exact held | contradiction
    | blob =>
      simp only [executeUpdate, PeerContext.execute, executeConnectedBlob]
      split_ifs
      · exact held
      · cases info.blobSettings with
        | none => exact held
        | some settings =>
          simp only [BlobCallisPool.addCallis, HashMap.lookup_insert_eq]
          split_ifs
          · exact some_ne_none settings
          · exact held
  · rw [(executeUpdate_callis order fun callis info same => connects ⟨callis, info, same⟩).2]
    unfold prepare
    split
    case h_4 | h_6 =>
      have other := of_decide_eq_false kept
      simpa [BlobCallisPool.removeCallis, HashMap.lookup_erase_eq, Ne.symm other] using held
    case h_5 => cases kept
    case h_1 | h_3 => rwa [removePrimaryHandle_eq]
    all_goals exact held

/-- A callis that is not dropped keeps its settings. -/
theorem settings_step (stepped : system.step label = some next)
    (held : system.settingsForCallis id ≠ none) (kept : system.drops label id = false) :
    next.settingsForCallis id ≠ none := by
  cases label with
  | process otherWork now =>
    simp only [step] at stepped
    split at stepped
    · cases stepped
    · next update rest queue =>
        cases stepped
        have spared : update.unregisters id = false := by
          rw [drops, queue] at kept
          exact (Bool.or_eq_false_iff.mp kept).1
        exact settings_executeUpdate held spared
  | expire => cases kept
  | _ =>
    simp only [step, enqueue, trySignalPeerStateEnsure] at stepped
    grind [settingsForCallis]

theorem awaits_of_caughtUp (caughtUp : system.caughtUp = true) (id : CallisId) :
    system.awaits id = false := by
  grind [PeerSystem.caughtUp, awaits]

/-- A callis is awaited from when it is spawned until its `Connected` is processed. -/
theorem awaits_of_step (stepped : system.step label = some next)
    (listed : (.blob, id) ∈ next.running) :
    next.awaits id = true ∨ (.blob, id) ∈ system.running ∧ (system.awaits id = true →
      next.awaits id = true ∨ ∃ otherWork now update rest, label = .process otherWork now ∧
        system.queue = update :: rest ∧ update.registers id = true) := by
  cases label with
  | process otherWork now =>
    simp only [step] at stepped
    split at stepped
    · cases stepped
    · cases stepped
      grind [awaits, execute]
  | acceptReports | dialReports =>
    simp only [step, enqueue, connectionInfo] at stepped
    grind [awaits, PeerStateUpdate.registers]
  | _ =>
    simp only [step, enqueue, trySignalPeerStateEnsure] at stepped
    grind [awaits]

theorem Settled.step (settled : system.Settled) (stepped : system.step label = some next)
    (spares : system.Spares label) : next.Settled := by
  intro id listed
  rcases awaits_of_step stepped listed with waits | ⟨runs, carried⟩
  · exact .inl waits
  have spared := spares _ runs rfl
  rcases settled id runs with waits | held
  · rcases carried waits with stillWaits | ⟨otherWork, now, update, rest, rfl, queue, registers⟩
    · exact .inl stillWaits
    -- this step processes the `Connected` of the callis
    simp only [PeerSystem.step, queue] at stepped
    cases stepped
    have taken : refused (system.ctx.effects update (system.inputs otherWork) []) update =
        none := by
      rw [drops, queue] at spared
      simpa [registers] using (Bool.or_eq_false_iff.mp spared).2
    unfold PeerStateUpdate.registers at registers
    split at registers
    · rw [← of_decide_eq_true registers]
      exact .inr (settings_execute taken)
    · cases registers
  · exact .inr (settings_step stepped held spared)

end PeerSystem

namespace ChunkRun

variable {run next : ChunkRun} {label : ChunkLabel}

theorem settled_step (settled : run.peer.Settled ∧ run.rejected = [])
    (stepped : run.step label = some next) (registered : run.Registered label) :
    next.peer.Settled ∧ next.rejected = [] := by
  cases label with
  | peer label =>
    obtain ⟨peer, performed, rfl⟩ := map_eq_some_iff.mp stepped
    exact ⟨settled.1.step performed registered, settled.2⟩
  | receiveChunk id =>
    obtain ⟨runs, received⟩ := ite_none_right_eq_some.mp stepped
    have unawaited := PeerSystem.awaits_of_caughtUp registered id
    have held := (settled.1 id (contains_iff_mem.mp runs)).resolve_left (by simp [unawaited])
    split at received
    · cases received
      exact settled
    · exact absurd ‹_› held

def beforeChunk : List ChunkLabel :=
  [.peer (.hello .primary), .peer (.acceptSpawns .primary),
    .peer (.acceptReports .primary 0 ⟨1, 1⟩), .peer (.process false 0), .peer (.hello .blob),
    .peer (.acceptSpawns .blob)]

end ChunkRun

end AureliaPeering.Peer
