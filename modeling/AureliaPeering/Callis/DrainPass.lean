import AureliaPeering.Callis.Surroundings

/-!
One drain of the waiters of a receive loop.

`collect_ready_waiters` receives from the channels first, and what it received is applied to the
map after that; requests that wait for a blob callis come last.  Whenever the loop awaits, the other
tasks act, and `tasks` says what they do at each of these points.  A map is traversed in any order.
Every outcome is listed with the id of the waiter that produced it, and `completed` lists the calls
of `dedupe_complete` that the loop makes.
-/

namespace AureliaPeering.Callis

open Collections Session Blob AureliaPeering.Ring
open Net (AcceptDecision InboundOutcome acceptResult answerOf drainDuplicateWaiter)
open Oneshot (Channel TryRecv)
open Peer (BlobCallisSettings)

inductive ReadyKind where
  | message (result : AcceptDecision)
  | blob (result : AcceptDecision)
  | duplicate (decision : DedupeDecision)
deriving DecidableEq, Repr

def acceptReady : TryRecv (Except AureliaError Unit) → Option AcceptDecision
  | .ok (.ok _) => some .accepted
  | .ok (.error error) => some (.rejected error)
  | .closed => some .closed
  | .empty => none

namespace Shared

/-- `try_recv` on the channel of a taberna. -/
def receiveAccept (shared : Shared) (acceptRx : AcceptReceiver) :
    TryRecv (Except AureliaError Unit) × Shared :=
  match shared.accepts[acceptRx]? with
  | some (peerMsgId, channel) =>
    (channel.tryRecv.1,
      { shared with accepts := shared.accepts.set acceptRx (peerMsgId, channel.tryRecv.2) })
  | none => (.closed, shared)

/-- `try_recv` on the channel of a duplicate. -/
def receiveDecision (shared : Shared) (decisionRx : DecisionSender) :
    TryRecv DedupeDecision × Shared :=
  match shared.duplicates[decisionRx]? with
  | some (peerMsgId, channel) =>
    (channel.tryRecv.1,
      { shared with
        duplicates := shared.duplicates.set decisionRx (peerMsgId, channel.tryRecv.2) })
  | none => (.closed, shared)

def onBlob (shared : Shared) (change : BlobManager → BlobManager) : Shared :=
  { shared with blob := change shared.blob }

end Shared

structure DrainPass where
  shared : Shared
  waiters : HashMap PeerMessageId InboundWaiter
  outcomes : List (PeerMessageId × InboundOutcome)
  completed : List (PeerMessageId × Except AureliaError Unit)
  awaits : Nat

namespace DrainPass

def start (shared : Shared) (waiters : HashMap PeerMessageId InboundWaiter) : DrainPass :=
  ⟨shared, waiters, [], [], 0⟩

def onBlob (pass : DrainPass) (change : BlobManager → BlobManager) : DrainPass :=
  { pass with shared := pass.shared.onBlob change }

section Source

variable (tasks : Nat → List Action)

def pause (pass : DrainPass) : DrainPass :=
  { pass with
    shared := (tasks pass.awaits).foldl Shared.act pass.shared
    awaits := pass.awaits + 1 }

/-- The part of `collect_ready_waiters` for one waiter. -/
def collect (pass : DrainPass) (waiter : InboundWaiter) : Option ReadyKind × DrainPass :=
  let pass := pass.pause tasks
  match waiter with
  | .message _ acceptRx =>
    let (received, shared) := pass.shared.receiveAccept acceptRx
    ((acceptReady received).map .message, { pass with shared })
  | .blobAccept pending =>
    let (received, shared) := pass.shared.receiveAccept pending.acceptRx
    ((acceptReady received).map .blob, { pass with shared })
  | .duplicate decisionRx =>
    let (received, shared) := pass.shared.receiveDecision decisionRx
    (match received with
      | .ok decision => some (.duplicate decision)
      | .closed => some (.duplicate .abandoned)
      | .empty => none, { pass with shared })
  | .blobCallis _ _ => (none, pass)

def collectReadyWaiters (pass : DrainPass) :
    List PeerMessageId → List (PeerMessageId × ReadyKind) × DrainPass
  | [] => ([], pass)
  | peerMsgId :: rest =>
    match pass.waiters.lookup peerMsgId with
    | none => collectReadyWaiters pass rest
    | some waiter =>
      let (kind, pass) := pass.collect tasks waiter
      let (ready, pass) := collectReadyWaiters pass rest
      ((kind.map fun kind => (peerMsgId, kind)).toList ++ ready, pass)

/-- The configuration is awaited, then the entry is completed. -/
def dedupeComplete (pass : DrainPass) (peerMsgId : PeerMessageId)
    (result : Except AureliaError Unit) (sendQueueSize : Nat) : DrainPass :=
  let pass := pass.pause tasks
  { pass with
    shared := pass.shared.complete sendQueueSize peerMsgId result
    completed := pass.completed ++ [(peerMsgId, result)] }

/-- The entry is completed, and the answer is the outcome. -/
def reply (pass : DrainPass) (peerMsgId : PeerMessageId) (result : Except AureliaError Unit)
    (sendQueueSize : Nat) : Option InboundOutcome × DrainPass :=
  (some (answerOf peerMsgId result), pass.dedupeComplete tasks peerMsgId result sendQueueSize)

def drainMessageWaiter (pass : DrainPass) (peerMsgId : PeerMessageId) (sendQueueSize : Nat)
    (result : AcceptDecision) : Option InboundOutcome × DrainPass :=
  pass.reply tasks peerMsgId (acceptResult result) sendQueueSize

def dropPendingRequest (pass : DrainPass) (streamId : PeerMessageId) : DrainPass :=
  let pass := pass.pause tasks
  let removed := pass.onBlob (BlobManager.removePendingRequest · streamId)
  if (pass.shared.blob.inbound.pendingRequests.lookup streamId).isSome then
    (removed.pause tasks).onBlob (BlobManager.releaseInbound · streamId)
  else removed

def activatePendingRequest (pass : DrainPass) (streamId : PeerMessageId)
    (settings : BlobCallisSettings) (deadline : Instant) : Except AureliaError Unit × DrainPass :=
  let pass := pass.pause tasks
  if (pass.shared.blob.inbound.recvStreams.lookup streamId).isSome then (.ok (), pass)
  else
    let pass := pass.pause tasks
    match pass.shared.blob.inbound.pendingRequests.lookup streamId with
    | none => (.error (.new .blobStreamNotFound), pass)
    | some request =>
      let pass := pass.onBlob (BlobManager.removePendingRequest · streamId)
      match RingSize.new settings.chunkSize settings.ackWindowChunks with
      | .error error => (.error error, pass)
      | .ok size =>
        (.ok (), (pass.pause tasks).onBlob (BlobManager.insertRecvStream · streamId
          ⟨request.tabernaId, request.receiver, .new size, deadline⟩))

/-- A blob callis is there: its settings are read and the request is activated. -/
def activate (pass : DrainPass) (peerMsgId : PeerMessageId) (input : HandInput) :
    Option InboundOutcome × DrainPass :=
  match input.settings with
  | none =>
    pass.reply tasks peerMsgId (.error (.new .blobCallisWithoutPrimary)) input.sendQueueSize
  | some settings =>
    let (result, pass) := pass.activatePendingRequest tasks peerMsgId settings input.deadline
    pass.reply tasks peerMsgId result input.sendQueueSize

def insertWaiter (pass : DrainPass) (peerMsgId : PeerMessageId) (waiter : InboundWaiter) :
    DrainPass :=
  { pass with waiters := pass.waiters.insert peerMsgId waiter }

def removeWaiter (pass : DrainPass) (peerMsgId : PeerMessageId) : DrainPass :=
  { pass with waiters := pass.waiters.erase peerMsgId }

def drainBlobAcceptWaiter (pass : DrainPass) (peerMsgId : PeerMessageId)
    (pending : BlobAcceptPending) (input : HandInput) (result : AcceptDecision) :
    Option InboundOutcome × DrainPass :=
  if result = .accepted then
    let pending := { pending with receiver := { pending.receiver with accepted := true } }
    let pass := (pass.pause tasks).onBlob (BlobManager.addPendingRequest · peerMsgId
      ⟨pending.dstTaberna, pending.receiver⟩)
    if input.sessionActive = false then
      (pass.dropPendingRequest tasks peerMsgId).reply tasks peerMsgId
        (.error (.new .blobCallisWithoutPrimary)) input.sendQueueSize
    else if input.hasCallis then pass.activate tasks peerMsgId input
    else
      match input.signalled with
      | .error error => pass.reply tasks peerMsgId (.error error) input.sendQueueSize
      | .ok _ => (none, pass.insertWaiter peerMsgId (.blobCallis pending input.deadline))
  else
    ((pass.pause tasks).onBlob (BlobManager.releaseInbound · peerMsgId)).reply tasks peerMsgId
      (acceptResult result) input.sendQueueSize

def push (peerMsgId : PeerMessageId) (drained : Option InboundOutcome × DrainPass) : DrainPass :=
  { drained.2 with
    outcomes := drained.2.outcomes ++ (drained.1.map fun outcome => (peerMsgId, outcome)).toList }

/-- The last case covers the two branches that put the waiter back. -/
def drainWaiter (pass : DrainPass) (peerMsgId : PeerMessageId) (input : HandInput) :
    InboundWaiter → ReadyKind → DrainPass
  | .message _ _, .message result =>
    push peerMsgId (pass.drainMessageWaiter tasks peerMsgId input.sendQueueSize result)
  | .blobAccept pending, .blob result =>
    push peerMsgId (pass.drainBlobAcceptWaiter tasks peerMsgId pending input result)
  | .duplicate _, .duplicate decision =>
    push peerMsgId (some (drainDuplicateWaiter peerMsgId decision), pass)
  | waiter, _ => pass.insertWaiter peerMsgId waiter

/-- What was received is applied to the map. -/
def drainEntry (inputs : PeerMessageId → HandInput) (pass : DrainPass)
    (entry : PeerMessageId × ReadyKind) : DrainPass :=
  match pass.waiters.lookup entry.1 with
  | none => pass
  | some waiter =>
    (pass.removeWaiter entry.1).drainWaiter tasks entry.1 (inputs entry.1) waiter entry.2

def drainAcceptWaiters (inputs : PeerMessageId → HandInput) (order : List PeerMessageId)
    (pass : DrainPass) : DrainPass :=
  let (ready, pass) := pass.collectReadyWaiters tasks order
  ready.foldl (drainEntry tasks inputs) pass

/-- A request that waits for a blob callis is looked at. -/
def drainBlobCallisWaiter (pass : DrainPass) (peerMsgId : PeerMessageId)
    (pending : BlobAcceptPending) (deadline : Instant) (input : HandInput) : DrainPass :=
  if deadline ≤ input.now then
    push peerMsgId ((pass.dropPendingRequest tasks peerMsgId).reply tasks peerMsgId
      (.error (.new .sendTimeout)) input.sendQueueSize)
  else
    let pass := pass.pause tasks
    if input.hasCallis then push peerMsgId (pass.activate tasks peerMsgId input)
    else pass.insertWaiter peerMsgId (.blobCallis pending deadline)

/-- The ids of the requests that wait for a blob callis, in the order of a traversal. -/
def blobCallisIds (pass : DrainPass) (order : List PeerMessageId) : List PeerMessageId :=
  order.filter fun peerMsgId =>
    match pass.waiters.lookup peerMsgId with
    | some (.blobCallis _ _) => true
    | _ => false

/-- The waiter is removed whether or not it still waits for a blob callis. -/
def drainBlobCallisEntry (inputs : PeerMessageId → HandInput) (pass : DrainPass)
    (peerMsgId : PeerMessageId) : DrainPass :=
  match pass.waiters.lookup peerMsgId with
  | some (.blobCallis pending deadline) =>
    (pass.removeWaiter peerMsgId).drainBlobCallisWaiter tasks peerMsgId pending deadline
      (inputs peerMsgId)
  | _ => pass.removeWaiter peerMsgId

def drainBlobCallisWaiters (inputs : PeerMessageId → HandInput) (order : List PeerMessageId)
    (pass : DrainPass) : DrainPass :=
  (pass.blobCallisIds order).foldl (drainBlobCallisEntry tasks inputs) pass

/-- `drain_ready`, its two halves traversing the map in the orders `order` and `later`. -/
def drainReady (first second : PeerMessageId → HandInput) (order later : List PeerMessageId)
    (pass : DrainPass) : DrainPass :=
  (pass.drainAcceptWaiters tasks first order).drainBlobCallisWaiters tasks second later

end Source

end DrainPass

end AureliaPeering.Callis
