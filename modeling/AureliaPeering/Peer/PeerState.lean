import AureliaPeering.Store.Dispatch

/-!
The state task of a peer: its state machine, the pools of callis, and what each update does.

An update is processed by one task, which other tasks do not see into, but the store and the blob
callis are shared.  The marks that an update still has to make in the store form its agenda, and
the next update waits until it is empty.
-/

namespace AureliaPeering.Peer

open Collections Store

inductive CallisKind where
  | primary
  | blob
deriving DecidableEq, Repr

inductive CallisTx where
  | primary
  | blob
deriving DecidableEq, Repr

def CallisTx.isClosed : CallisTx → Bool
  | primary => true
  | blob => false

structure CallisHandle where
  id : CallisId
  tx : CallisTx
deriving DecidableEq, Repr

structure BlobCallisSettings where
  chunkSize : Nat
  ackWindowChunks : Nat
deriving DecidableEq, Repr

inductive PeerRole where
  | listener
  | originator
deriving DecidableEq, Repr

inductive PrimaryDialState where
  | idle
  | dialing
deriving DecidableEq, Repr

structure PeerState where
  role : PeerRole
  hadPrimary : Bool
  primary : List CallisHandle
  reconnectAttempt : Nat
  primaryDial : PrimaryDialState
  dialingBlob : Bool
  blobReconnectAttempt : Nat
  closing : Bool
  impairedSince : Option Instant
deriving DecidableEq, Repr

def PeerState.new : PeerState := ⟨.listener, false, [], 0, .idle, false, 0, false, none⟩

/-- The effects that the executors read. -/
structure PeerStateEffects where
  publishSnapshot : Bool := false
  spawnPrimaryDial : Bool := false
  spawnBlobDial : Bool := false
  closeNewPrimary : Bool := false
  closeNewBlob : Bool := false
  promoteListenerToOriginator : Bool := false
  failBlobStreams : Bool := false
deriving DecidableEq, Repr

namespace PeerStateMachine

def ensurePrimaryDial (state : PeerState) (hasPrimaryWork hasCapacity : Bool) :
    PeerState × PeerStateEffects :=
  if state.closing then (state, {})
  else if state.primary ≠ [] then (state, {})
  else if state.primaryDial = .dialing ∨ hasPrimaryWork = false ∨ hasCapacity = false then
    (state, {})
  else
    ({ state with primaryDial := .dialing },
      { spawnPrimaryDial := true
        promoteListenerToOriginator := state.role = .listener })

def connectedPrimary (state : PeerState) (sessionClosing freshSession : Bool) :
    PeerState × PeerStateEffects :=
  if state.closing || sessionClosing then (state, { closeNewPrimary := true })
  else
    ({ state with hadPrimary := true, reconnectAttempt := 0, primaryDial := .idle },
      { publishSnapshot := true, failBlobStreams := freshSession })

def connectedBlob (state : PeerState) (hasBlobSettings : Bool) : PeerState × PeerStateEffects :=
  if state.closing then (state, { closeNewBlob := true })
  else
    let state := { state with dialingBlob := false, blobReconnectAttempt := 0 }
    if hasBlobSettings = false then (state, { closeNewBlob := true }) else (state, {})

def dialFailedPrimary (state : PeerState) (hasPrimaryWork hasCapacity : Bool) :
    PeerState × PeerStateEffects :=
  let idle := { state with primaryDial := .idle }
  if state.primary ≠ [] then (idle, {}) else ensurePrimaryDial idle hasPrimaryWork hasCapacity

def primaryRemoved (state : PeerState) (hasPrimaryWork hasCapacity : Bool) :
    PeerState × PeerStateEffects :=
  let idle := { state with primaryDial := .idle }
  if state.primary ≠ [] then (idle, { publishSnapshot := true })
  else
    let (state, effects) := ensurePrimaryDial idle hasPrimaryWork hasCapacity
    (state, { effects with publishSnapshot := true })

def ensureBlobDial (state : PeerState)
    (hasPrimary hasCallis hasActiveStreams hasCapacity : Bool) : PeerState × PeerStateEffects :=
  if state.closing || !hasPrimary || state.dialingBlob || hasCallis || !hasActiveStreams ||
      !hasCapacity then (state, {})
  else ({ state with dialingBlob := true }, { spawnBlobDial := true })

def dialFailedBlob (state : PeerState)
    (hasPrimary hasCallis hasActiveStreams hasCapacity : Bool) : PeerState × PeerStateEffects :=
  ensureBlobDial { state with dialingBlob := false } hasPrimary hasCallis hasActiveStreams
    hasCapacity

def blobRemoved (state : PeerState) (hasPrimary hasCallis hasActiveStreams hasCapacity : Bool) :
    PeerState × PeerStateEffects :=
  ensureBlobDial { state with dialingBlob := false } hasPrimary hasCallis hasActiveStreams
    hasCapacity

def gracefulClose (state : PeerState) : PeerState × PeerStateEffects :=
  if state.closing then (state, {})
  else
    ({ state with closing := true, primaryDial := .idle, dialingBlob := false },
      { publishSnapshot := true, failBlobStreams := true })

end PeerStateMachine

structure BlobCallisPool where
  order : List CallisId
  handles : HashMap CallisId CallisHandle
  settings : HashMap CallisId BlobCallisSettings

namespace BlobCallisPool

def new : BlobCallisPool := ⟨[], ∅, ∅⟩

/-- The part of `add_callis` that concerns the pool. -/
def addCallis (pool : BlobCallisPool) (handle : CallisHandle) (settings : BlobCallisSettings) :
    BlobCallisPool where
  order := if handle.id ∈ pool.order then pool.order else pool.order ++ [handle.id]
  handles := pool.handles.insert handle.id handle
  settings := pool.settings.insert handle.id settings

def removeCallis (pool : BlobCallisPool) (callisId : CallisId) : BlobCallisPool where
  order := pool.order.erase callisId
  handles := pool.handles.erase callisId
  settings := pool.settings.erase callisId

def hasCallis (pool : BlobCallisPool) : Bool := !pool.order.isEmpty

/-- The loop of `select_callis`: ids without a usable entry are dropped, the first usable one goes
to the back. -/
def selectLoop : Nat → BlobCallisPool → Option CallisId × BlobCallisPool
  | 0, pool => (none, pool)
  | turns + 1, pool =>
    match pool.order with
    | [] => (none, pool)
    | id :: rest =>
      match pool.handles.lookup id, pool.settings.lookup id with
      | none, _ => selectLoop turns
          { pool with order := rest, settings := pool.settings.erase id }
      | some _, none => selectLoop turns
          { pool with order := rest, handles := pool.handles.erase id }
      | some handle, some _ =>
        if handle.tx.isClosed then selectLoop turns (pool.removeCallis id)
        else (some id, { pool with order := rest ++ [id] })

def selectCallis (pool : BlobCallisPool) : Option CallisId × BlobCallisPool :=
  selectLoop pool.order.length pool

end BlobCallisPool

structure ConnectionInfo where
  handle : CallisHandle
  freshSession : Bool
  replay : List PeerMessageId
  blobSettings : Option BlobCallisSettings
deriving DecidableEq, Repr

inductive PeerStateUpdate where
  | connected (callis : CallisKind) (info : ConnectionInfo)
  | dialFailed (callis : CallisKind)
  | disconnect (callis : CallisKind) (id : Option CallisId)
  | connectionClosed (callis : CallisKind) (id : CallisId)
  | ensurePrimaryDial
  | ensureBlobDial
  | gracefulClose
deriving DecidableEq, Repr

/-- A mark that the update in progress still has to make in the store. -/
inductive StoreMark where
  | callisReplayReady (callisId : CallisId)
  | trackedReplayReady (peerMsgIds : List PeerMessageId)
deriving DecidableEq, Repr

def StoreMark.apply (store : RetainedStore) : StoreMark → RetainedStore
  | callisReplayReady callisId => store.markCallisReplayReady callisId
  | trackedReplayReady peerMsgIds => store.markTrackedReplayReady peerMsgIds

/-- What the state task owns and reaches. -/
structure PeerContext where
  state : PeerState
  primaryActive : Bool
  pool : BlobCallisPool
  store : RetainedStore
  sessionClosing : Bool
  agenda : List StoreMark

/-- What an update reads from the configuration, the tracker, the store and the streams on its way:
whether there is pending work, capacity at the decision and at the launch of a dial, and an active
stream. -/
structure DialInputs where
  hasPending : Bool
  hasCapacity : Bool
  launchCapacity : Bool
  hasActiveStreams : Bool
deriving DecidableEq, Repr

namespace PeerContext

def new (capacities : RetainedCapacities) (now : Instant) : PeerContext :=
  ⟨.new, false, .new, .new capacities now, false, []⟩

/-- `execute_primary_dial_effect`. -/
def executePrimaryDial (ctx : PeerContext) (effects : PeerStateEffects) (inputs : DialInputs) :
    PeerContext :=
  if effects.spawnPrimaryDial = false then ctx
  else
    let attempted := { ctx.state with
      reconnectAttempt := saturatingAdd ctx.state.reconnectAttempt 1 }
    if inputs.launchCapacity = false then
      { ctx with state := { attempted with primaryDial := .idle } }
    else
      { ctx with state := { attempted with
          primaryDial := .dialing
          role := if effects.promoteListenerToOriginator then .originator else attempted.role } }

/-- `execute_blob_dial_effect`. -/
def executeBlobDial (ctx : PeerContext) (effects : PeerStateEffects) (inputs : DialInputs) :
    PeerContext :=
  if effects.spawnBlobDial = false then ctx
  else
    { ctx with state := { ctx.state with
        blobReconnectAttempt := saturatingAdd ctx.state.blobReconnectAttempt 1
        dialingBlob := inputs.launchCapacity } }

def hasPrimaryWork (ctx : PeerContext) (inputs : DialInputs) : Bool :=
  !ctx.sessionClosing && inputs.hasPending

/-- `execute_fresh_primary_restart_effect`, up to the blob streams. -/
def freshRestart (ctx : PeerContext) (order : List SlotId) : PeerContext :=
  { ctx with
    state := { ctx.state with primary := [] }
    primaryActive := false
    store := (ctx.store.failAll (.new .peerRestarted) order).2
    pool := .new }

/-- A handle that is refused is asked to close and listed nowhere.  Like every executor, this one
returns the effects that the state machine has asked for. -/
def executeConnectedPrimary (ctx : PeerContext) (info : ConnectionInfo) (order : List SlotId) :
    PeerContext × PeerStateEffects :=
  let (state, effects) := PeerStateMachine.connectedPrimary ctx.state ctx.sessionClosing
    info.freshSession
  let entered := { ctx with state }
  let ready := if effects.failBlobStreams then entered.freshRestart order else entered
  (if effects.closeNewPrimary then entered
    else
      { ready with
        state := { ready.state with primary := ready.state.primary ++ [info.handle] }
        primaryActive := true
        agenda := if info.replay = [] then [] else [.trackedReplayReady info.replay] }, effects)

def executeConnectedBlob (ctx : PeerContext) (info : ConnectionInfo) :
    PeerContext × PeerStateEffects :=
  let (state, effects) := PeerStateMachine.connectedBlob ctx.state info.blobSettings.isSome
  (if effects.closeNewBlob && state.closing then { ctx with state }
    else
      match info.blobSettings with
      | none => { ctx with state }
      | some settings => { ctx with state, pool := ctx.pool.addCallis info.handle settings },
    effects)

def executeDialFailed (ctx : PeerContext) (callis : CallisKind) (inputs : DialInputs) :
    PeerContext × PeerStateEffects :=
  match callis with
  | .primary =>
    let (state, effects) := PeerStateMachine.dialFailedPrimary ctx.state
      (ctx.hasPrimaryWork inputs) inputs.hasCapacity
    ({ ctx with state }.executePrimaryDial effects inputs, effects)
  | .blob =>
    let (state, effects) := PeerStateMachine.dialFailedBlob ctx.state ctx.primaryActive
      ctx.pool.hasCallis inputs.hasActiveStreams inputs.hasCapacity
    ({ ctx with state }.executeBlobDial effects inputs, effects)

def executeAfterPrimaryRemoved (ctx : PeerContext) (allowNewDial : Bool) (inputs : DialInputs) :
    PeerContext × PeerStateEffects :=
  let (state, effects) := PeerStateMachine.primaryRemoved ctx.state
    (allowNewDial && ctx.hasPrimaryWork inputs) inputs.hasCapacity
  ({ ctx with state, primaryActive := !ctx.state.primary.isEmpty }.executePrimaryDial effects
    inputs, effects)

/-- `remove_primary_handle` with the sweep it is followed by. -/
def removePrimaryHandle (ctx : PeerContext) (id : CallisId) : PeerContext :=
  if ctx.state.primary.any (·.id = id) then
    { ctx with
      state := { ctx.state with primary := ctx.state.primary.eraseP (·.id = id) }
      agenda := [.callisReplayReady id] }
  else ctx

def executePrimaryDisconnect (ctx : PeerContext) (id : Option CallisId) (inputs : DialInputs) :
    PeerContext × PeerStateEffects :=
  match id with
  | some id => (ctx.removePrimaryHandle id).executeAfterPrimaryRemoved true inputs
  | none =>
    { ctx with
      state := { ctx.state with primary := [] }
      agenda := ctx.state.primary.map fun handle : CallisHandle => .callisReplayReady handle.id
    }.executeAfterPrimaryRemoved true inputs

def executePrimaryClosed (ctx : PeerContext) (id : CallisId) (inputs : DialInputs) :
    PeerContext × PeerStateEffects :=
  (ctx.removePrimaryHandle id).executeAfterPrimaryRemoved (!ctx.state.closing) inputs

def executeAfterBlobRemoved (ctx : PeerContext) (inputs : DialInputs) :
    PeerContext × PeerStateEffects :=
  let (state, effects) := PeerStateMachine.blobRemoved ctx.state ctx.primaryActive
    ctx.pool.hasCallis inputs.hasActiveStreams inputs.hasCapacity
  ({ ctx with state }.executeBlobDial effects inputs, effects)

/-- `execute_blob_disconnect` without the requeueing of blob frames. -/
def executeBlobDisconnect (ctx : PeerContext) (id : Option CallisId) (inputs : DialInputs) :
    PeerContext × PeerStateEffects :=
  let pool := match id with
    | some id => ctx.pool.removeCallis id
    | none => .new
  { ctx with pool }.executeAfterBlobRemoved inputs

def executeBlobClosed (ctx : PeerContext) (id : CallisId) (inputs : DialInputs) :
    PeerContext × PeerStateEffects :=
  { ctx with pool := ctx.pool.removeCallis id }.executeAfterBlobRemoved inputs

def executeEnsurePrimaryDial (ctx : PeerContext) (inputs : DialInputs) :
    PeerContext × PeerStateEffects :=
  let (state, effects) := PeerStateMachine.ensurePrimaryDial ctx.state (ctx.hasPrimaryWork inputs)
    inputs.hasCapacity
  ({ ctx with state }.executePrimaryDial effects inputs, effects)

def executeEnsureBlobDial (ctx : PeerContext) (inputs : DialInputs) :
    PeerContext × PeerStateEffects :=
  let (state, effects) := PeerStateMachine.ensureBlobDial ctx.state ctx.primaryActive
    ctx.pool.hasCallis inputs.hasActiveStreams inputs.hasCapacity
  ({ ctx with state }.executeBlobDial effects inputs, effects)

/-- The blob callis are drained later, by a task of its own. -/
def executeGracefulClose (ctx : PeerContext) (order : List SlotId) :
    PeerContext × PeerStateEffects :=
  let (state, effects) := PeerStateMachine.gracefulClose ctx.state
  (if effects.publishSnapshot = false then { ctx with state }
    else
      { ctx with
        state
        sessionClosing := true
        store := (ctx.store.beginShutdown (.new .peerUnavailable) order).2 }, effects)

def execute (ctx : PeerContext) (update : PeerStateUpdate) (inputs : DialInputs)
    (order : List SlotId) : PeerContext × PeerStateEffects :=
  match update with
  | .connected .primary info => ctx.executeConnectedPrimary info order
  | .connected .blob info => ctx.executeConnectedBlob info
  | .dialFailed callis => ctx.executeDialFailed callis inputs
  | .disconnect .primary id => ctx.executePrimaryDisconnect id inputs
  | .disconnect .blob id => ctx.executeBlobDisconnect id inputs
  | .connectionClosed .primary id => ctx.executePrimaryClosed id inputs
  | .connectionClosed .blob id => ctx.executeBlobClosed id inputs
  | .ensurePrimaryDial => ctx.executeEnsurePrimaryDial inputs
  | .ensureBlobDial => ctx.executeEnsureBlobDial inputs
  | .gracefulClose => ctx.executeGracefulClose order

def executeUpdate (ctx : PeerContext) (update : PeerStateUpdate) (inputs : DialInputs)
    (order : List SlotId) : PeerContext :=
  (ctx.execute update inputs order).1

/-- What the state task does beside its own state goes by the effects of an update. -/
def effects (ctx : PeerContext) (update : PeerStateUpdate) (inputs : DialInputs)
    (order : List SlotId) : PeerStateEffects :=
  (ctx.execute update inputs order).2

/-- The conditions under which the expired reconnect window tears the peer down. -/
def impaired (ctx : PeerContext) : Bool :=
  ctx.state.impairedSince.isSome && !ctx.state.closing && !ctx.sessionClosing &&
    ctx.state.primary.isEmpty && !ctx.pool.hasCallis

/-- `teardown_peer_handle`, up to the blob streams. -/
def teardownPeerHandle (ctx : PeerContext) (order : List SlotId) : PeerContext :=
  { ctx with
    state := { ctx.state with
      impairedSince := none
      closing := true
      primaryDial := .idle
      dialingBlob := false
      reconnectAttempt := 0
      blobReconnectAttempt := 0
      primary := [] }
    primaryActive := false
    sessionClosing := true
    store := (ctx.store.failNonA1 (.new .peerUnavailable) order).2
    pool := .new }

/-- The epilogue of the state task's loop. -/
def updateImpairedSince (ctx : PeerContext) (now : Instant) : PeerContext :=
  let impairedSince :=
    if ctx.state.closing || ctx.sessionClosing || !ctx.state.hadPrimary then none
    else if ctx.state.primary.isEmpty && !ctx.pool.hasCallis then
      some (ctx.state.impairedSince.getD now)
    else none
  { ctx with state := { ctx.state with impairedSince } }

end PeerContext

end AureliaPeering.Peer
