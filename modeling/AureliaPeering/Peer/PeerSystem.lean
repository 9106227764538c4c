import AureliaPeering.Peer.Pools

/-!
A peer with the tasks around its state task: senders, dial tasks, accept tasks and callis tasks,
which all talk to the state task through one bounded queue.

The number of open callis is read where a handshake or a dial is admitted, and grows where its
callis is spawned.  The store is represented by the number of tracked messages that it retains,
the blob manager by the number of its streams and accepted requests.
-/

namespace AureliaPeering.Peer

open Collections Store

def peerStateQueueSize : Nat := 256

/-- A task that sets up a callis, with the id of the callis once it has spawned it. -/
structure Attempt where
  kind : CallisKind
  callis : Option CallisId
deriving DecidableEq, Repr

structure PeerSystem where
  ctx : PeerContext
  queue : List PeerStateUpdate
  /-- Dial tasks whose report is not yet in the queue. -/
  dials : List Attempt
  /-- Accept tasks that passed the limit and whose report is not yet in the queue. -/
  accepts : List Attempt
  /-- The callis whose reader and writer run: what the tracker counts. -/
  running : List (CallisKind × CallisId)
  /-- The callis that have ended and whose report is not yet in the queue. -/
  ended : List (CallisKind × CallisId)
  nextCallisId : CallisId
  maxParallelCallisPerPeer : Nat
  addressKnown : Bool
  tracked : Nat
  streams : Nat

inductive SystemLabel where
  /-- A message is retained and the state task signalled. -/
  | send
  /-- A retained message is acknowledged, fails or expires. -/
  | settle
  /-- A blob request is accepted; without a blob callis the state task is signalled. -/
  | acceptRequest
  | registerStream
  | endStream
  /-- An accept task reads a hello and checks the limit. -/
  | hello (kind : CallisKind)
  | acceptFails (kind : CallisKind)
  /-- The callis of an accept or a dial task is spawned, -/
  | acceptSpawns (kind : CallisKind)
  | dialSpawns (kind : CallisKind)
  /-- and its task reports it. -/
  | acceptReports (kind : CallisKind) (id : CallisId) (settings : BlobCallisSettings)
  | dialReports (kind : CallisKind) (id : CallisId) (freshSession : Bool)
      (settings : BlobCallisSettings)
  | dialFails (kind : CallisKind)
  | callisEnds (kind : CallisKind) (id : CallisId)
  | callisReports (kind : CallisKind) (id : CallisId)
  | disconnect (kind : CallisKind) (id : Option CallisId)
  | beginClose
  | gracefulClose
  /-- The state task takes an update from its queue.  There may be other pending work than tracked
  messages. -/
  | process (otherWork : Bool) (now : Instant)
  /-- The reconnect window has expired. -/
  | expire (now : Instant)
  | updateDialAddr
  | configure (maxParallelCallisPerPeer : Nat)
deriving DecidableEq

namespace PeerSystem

def new (maxParallelCallisPerPeer : Nat) (addressKnown : Bool) : PeerSystem where
  ctx := .new ⟨1, 1, 1, 1⟩ 0
  queue := []
  dials := []
  accepts := []
  running := []
  ended := []
  nextCallisId := 0
  maxParallelCallisPerPeer := maxParallelCallisPerPeer
  addressKnown := addressKnown
  tracked := 0
  streams := 0

def maxParallel (system : PeerSystem) : Nat := max system.maxParallelCallisPerPeer 1

def hasCallisCapacity (system : PeerSystem) : Bool := system.running.length < system.maxParallel

/-- A signal that does not fit is dropped. -/
def trySignalPeerStateEnsure (system : PeerSystem) (update : PeerStateUpdate) : PeerSystem :=
  if system.queue.length < peerStateQueueSize then { system with queue := system.queue ++ [update] }
  else system

def enqueue (system : PeerSystem) (update : PeerStateUpdate) : Option PeerSystem :=
  if system.queue.length < peerStateQueueSize then
    some { system with queue := system.queue ++ [update] }
  else none

def connectionInfo (kind : CallisKind) (id : CallisId) (freshSession : Bool)
    (settings : BlobCallisSettings) : ConnectionInfo :=
  match kind with
  | .primary => ⟨⟨id, .primary⟩, freshSession, [], none⟩
  | .blob => ⟨⟨id, .blob⟩, false, [], some settings⟩

def inputs (system : PeerSystem) (otherWork : Bool) : DialInputs where
  hasPending := decide (0 < system.tracked) || otherWork
  hasCapacity := system.hasCallisCapacity
  launchCapacity := system.hasCallisCapacity
  hasActiveStreams := 0 < system.streams

/-- A fresh session fails the tracked messages and the streams. -/
def restarts (effects : PeerStateEffects) : PeerStateUpdate → Bool
  | .connected .primary _ => effects.failBlobStreams
  | _ => false

def execute (system : PeerSystem) (update : PeerStateUpdate) (otherWork : Bool) (now : Instant) :
    PeerSystem :=
  let inputs := system.inputs otherWork
  let effects := system.ctx.effects update inputs []
  { system with
    ctx := { (system.ctx.executeUpdate update inputs []).updateImpairedSince now with agenda := [] }
    dials := system.dials ++
      (PeerContext.launch effects inputs system.addressKnown).toList.map (⟨·, none⟩)
    tracked := if restarts effects update then 0 else system.tracked
    streams := if restarts effects update then 0 else system.streams }

def step (system : PeerSystem) : SystemLabel → Option PeerSystem
  | .send => some ({ system with
      tracked := system.tracked + 1 }.trySignalPeerStateEnsure .ensurePrimaryDial)
  | .settle => some { system with tracked := system.tracked - 1 }
  | .acceptRequest =>
    let accepted := { system with streams := system.streams + 1 }
    if system.ctx.pool.hasCallis then some accepted
    else some (accepted.trySignalPeerStateEnsure .ensureBlobDial)
  | .registerStream => some { system with streams := system.streams + 1 }
  | .endStream => some { system with streams := system.streams - 1 }
  | .hello kind =>
    if system.hasCallisCapacity ∧ (kind = .blob → system.ctx.primaryActive) then
      some { system with accepts := ⟨kind, none⟩ :: system.accepts }
    else some system
  | .acceptFails kind =>
    if ⟨kind, none⟩ ∈ system.accepts then
      some { system with accepts := system.accepts.erase ⟨kind, none⟩ }
    else none
  | .acceptSpawns kind =>
    if ⟨kind, none⟩ ∈ system.accepts then
      some { system with
        accepts := ⟨kind, some system.nextCallisId⟩ :: system.accepts.erase ⟨kind, none⟩
        running := (kind, system.nextCallisId) :: system.running
        nextCallisId := system.nextCallisId + 1 }
    else none
  | .dialSpawns kind =>
    if ⟨kind, none⟩ ∈ system.dials then
      some { system with
        dials := ⟨kind, some system.nextCallisId⟩ :: system.dials.erase ⟨kind, none⟩
        running := (kind, system.nextCallisId) :: system.running
        nextCallisId := system.nextCallisId + 1 }
    else none
  | .acceptReports kind id settings =>
    if ⟨kind, some id⟩ ∈ system.accepts then
      { system with accepts := system.accepts.erase ⟨kind, some id⟩ }.enqueue
        (.connected kind (connectionInfo kind id false settings))
    else none
  | .dialReports kind id freshSession settings =>
    if ⟨kind, some id⟩ ∈ system.dials then
      { system with dials := system.dials.erase ⟨kind, some id⟩ }.enqueue
        (.connected kind (connectionInfo kind id freshSession settings))
    else none
  | .dialFails kind =>
    if ⟨kind, none⟩ ∈ system.dials then
      { system with dials := system.dials.erase ⟨kind, none⟩ }.enqueue (.dialFailed kind)
    else none
  | .callisEnds kind id =>
    if (kind, id) ∈ system.running then
      some { system with
        running := system.running.erase (kind, id), ended := (kind, id) :: system.ended }
    else none
  | .callisReports kind id =>
    if (kind, id) ∈ system.ended then
      { system with ended := system.ended.erase (kind, id) }.enqueue (.connectionClosed kind id)
    else none
  | .disconnect kind id => system.enqueue (.disconnect kind id)
  | .beginClose => some { system with ctx := { system.ctx with sessionClosing := true } }
  | .gracefulClose => system.enqueue .gracefulClose
  | .process otherWork now =>
    match system.queue with
    | [] => none
    | update :: rest => some ({ system with queue := rest }.execute update otherWork now)
  | .expire now =>
    if system.ctx.impaired then
      some { system with ctx := (system.ctx.teardownPeerHandle []).updateImpairedSince now }
    else none
  | .updateDialAddr => some { system with addressKnown := true }
  | .configure maxParallelCallisPerPeer => some { system with maxParallelCallisPerPeer }

/-- Any limit, and an address that is known from the start or not. -/
def system : Machine.System PeerSystem SystemLabel :=
  .ofStep (fun start => ∃ limit addressKnown, start = new limit addressKnown) step

end PeerSystem

end AureliaPeering.Peer
