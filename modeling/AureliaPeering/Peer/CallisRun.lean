import AureliaPeering.Peer.PeerState

/-!
The callis of a peer together with its state task.

A callis task runs from its spawning, reports `Connected` through the dial or accept task and
`ConnectionClosed` itself once its reader and writer have ended.  The two reports come from two
tasks, so the state task may receive them in either order.
-/

namespace AureliaPeering.Peer

open Collections Store

/-- A callis task, the claim its transmitter is writing, and which of its two reports the state task
has processed. -/
structure CallisTask where
  kind : CallisKind
  running : Bool
  claim : Option RetainedClaim
  connected : Bool
  closed : Bool
deriving DecidableEq

def CallisTask.spawned (kind : CallisKind) : CallisTask := ⟨kind, true, none, false, false⟩

structure PeerRun where
  ctx : PeerContext
  tasks : HashMap CallisId CallisTask

inductive PeerLabel where
  /-- `spawn_callis_handle`; the ids of a peer are never used again. -/
  | spawn (kind : CallisKind) (id : CallisId)
  /-- The transmitter of a primary callis claims, -/
  | claim (id : CallisId)
  /-- and reports the result of its write. -/
  | complete (id : CallisId) (result : Except AureliaError Unit)
  /-- The reader and the writer of a callis have ended. -/
  | finish (id : CallisId)
  /-- Any other user of the store. -/
  | storeOp (op : Op)
  /-- The state task takes an update, -/
  | update (update : PeerStateUpdate) (inputs : DialInputs) (order : List SlotId) (now : Instant)
  /-- and makes the marks that the update asks for. -/
  | mark
  | teardown (order : List SlotId) (now : Instant)
  /-- The task of a graceful close drains the blob callis. -/
  | drainCallis
  | selectCallis
  /-- `begin_close` of the session by another task. -/
  | beginClose

/-- What the other users of the store do: neither the transmitters nor the sweeps of the state
task. -/
def outsideOp : Op → Bool
  | .claimNext _ | .completeWrite _ _ | .markCallisReplayReady _ => false
  | _ => true

instance (store : RetainedStore) (op : Op) : Decidable (op.Ordered store) := by
  cases op <;> first
    | exact isTrue trivial
    | exact inferInstanceAs (Decidable (List.Perm _ _))

namespace PeerRun

def new (capacities : RetainedCapacities) (now : Instant) : PeerRun := ⟨.new capacities now, ∅⟩

/-- Whether an update can be in the queue of the state task, and the tasks once it is taken. -/
def report (run : PeerRun) : PeerStateUpdate → Option (HashMap CallisId CallisTask)
  | .connected kind info =>
    (run.tasks.lookup info.handle.id).bind fun task =>
      if task.kind = kind ∧ task.connected = false then
        some (run.tasks.insert info.handle.id { task with connected := true })
      else none
  | .connectionClosed kind id =>
    (run.tasks.lookup id).bind fun task =>
      if task.kind = kind ∧ task.running = false ∧ task.closed = false then
        some (run.tasks.insert id { task with closed := true })
      else none
  | _ => some run.tasks

def withStore (run : PeerRun) (store : RetainedStore) : PeerRun :=
  { run with ctx := { run.ctx with store } }

def step (run : PeerRun) : PeerLabel → Option PeerRun
  | .spawn kind id =>
    if (run.tasks.lookup id).isSome then none
    else some { run with tasks := run.tasks.insert id (.spawned kind) }
  | .claim id =>
    (run.tasks.lookup id).bind fun task =>
      if task.running = true ∧ task.kind = .primary ∧ task.claim = none then
        let (claim, store) := run.ctx.store.claimNext id
        some { run.withStore store with tasks := run.tasks.insert id { task with claim } }
      else none
  | .complete id result =>
    (run.tasks.lookup id).bind fun task =>
      task.claim.map fun claim =>
        let (_, store) := run.ctx.store.completeWrite claim result
        { run.withStore store with tasks := run.tasks.insert id { task with claim := none } }
  | .finish id =>
    (run.tasks.lookup id).bind fun task =>
      -- A transmitter reports on its claim before it ends.
      if task.running = true ∧ task.claim = none then
        some { run with tasks := run.tasks.insert id { task with running := false } }
      else none
  | .storeOp op =>
    if outsideOp op = true ∧ op.Ordered run.ctx.store then
      (Store.step run.ctx.store op).toOption.map fun (_, store) => run.withStore store
    else none
  | .update update inputs order now =>
    if run.ctx.agenda = [] ∧ order.Perm run.ctx.store.tracked.values then
      (run.report update).map fun tasks =>
        ⟨(run.ctx.executeUpdate update inputs order).updateImpairedSince now, tasks⟩
    else none
  | .mark =>
    match run.ctx.agenda with
    | [] => none
    | mark :: agenda =>
      some { run with ctx := { run.ctx with store := mark.apply run.ctx.store, agenda } }
  | .teardown order now =>
    if run.ctx.agenda = [] ∧ run.ctx.impaired = true ∧
        order.Perm run.ctx.store.tracked.values then
      some { run with ctx := (run.ctx.teardownPeerHandle order).updateImpairedSince now }
    else none
  | .drainCallis =>
    if run.ctx.state.closing = true then some { run with ctx := { run.ctx with pool := .new } }
    else none
  | .selectCallis => some { run with ctx := { run.ctx with pool := run.ctx.pool.selectCallis.2 } }
  | .beginClose => some { run with ctx := { run.ctx with sessionClosing := true } }

def system (capacities : RetainedCapacities) (now : Instant) : Machine.System PeerRun PeerLabel :=
  .ofStep (· = .new capacities now) step

end PeerRun

end AureliaPeering.Peer
