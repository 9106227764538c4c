import AureliaPeering.Blob.InboundState
import AureliaPeering.Net.Inbound
import AureliaPeering.Peer.PeerState

/-!
The receive loops of the callis of a peer, with the tables of the blob manager.

A loop works on one request at a time, and every section that changes what it shares with other
tasks is a step of its own, so that these come in between.  The request a loop is working on is in
its hand, from `dedupe_begin` until it is listed as a waiter, and again from the decision on.  The
clean-ups of other tasks are lists of such sections.  What a loop held when it ended stays in its
record.
-/

namespace AureliaPeering.Callis

open Collections Session Blob AureliaPeering.Ring
open Net (AcceptDecision InboundOutcome acceptResult answerOf drainDuplicateWaiter)
open Peer (BlobCallisSettings)

structure BlobAcceptPending where
  dstTaberna : TabernaId
  acceptRx : AcceptReceiver
  receiver : BlobReceiverState
deriving DecidableEq, Repr

inductive InboundWaiter where
  | message (dstTaberna : TabernaId) (acceptRx : AcceptReceiver)
  | blobAccept (pending : BlobAcceptPending)
  | blobCallis (pending : BlobAcceptPending) (deadline : Instant)
  | duplicate (decisionRx : DecisionSender)
deriving DecidableEq, Repr

/-- The channel of the decision that a waiter other than a duplicate waits for. -/
def InboundWaiter.acceptRx : InboundWaiter → Option AcceptReceiver
  | .message _ acceptRx => some acceptRx
  | .blobAccept pending | .blobCallis pending _ => some pending.acceptRx
  | .duplicate _ => none

/-- A frame with a message or a blob request, and what its handler meets: the flag of the session,
the taberna, the bytes reserved if the tracker has room, and what the queue of the taberna says. -/
structure Arrival where
  peerMsgId : PeerMessageId
  blob : Bool
  dstTaberna : TabernaId
  sessionClosing : Bool
  known : Bool
  reserved : Option Nat
  capBytes : Nat
  enqueued : Except AureliaError Unit

/-- How a loop ends its work on an id that it has begun. -/
inductive Answer where
  | reply (result : Except AureliaError Unit)
  | cancelled (reason : CancelReason)

inductive HandPhase where
  /-- `dedupe_begin` has entered the id, -/
  | begun (arrival : Arrival)
  /-- and the bytes of a blob request are reserved. -/
  | reserved (arrival : Arrival)
  /-- The accepted request has been added to the pending requests. -/
  | accepted
  /-- A request that waits for a blob callis is looked at again. -/
  | waiting (deadline : Instant)
  /-- `activate_pending_request` has found no stream, -/
  | absent (settings : BlobCallisSettings)
  /-- and has taken the pending request. -/
  | taken (request : PendingBlobRequest) (settings : BlobCallisSettings)
  /-- The reservation is to be released. -/
  | releasing (answer : Answer)
  /-- The dedupe entry is to be completed or abandoned. -/
  | answering (answer : Answer)

structure Hand where
  peerMsgId : PeerMessageId
  pending : BlobAcceptPending
  phase : HandPhase

/-- `InboundCallisState` with the variables of the loop. -/
structure Reader where
  waiters : HashMap PeerMessageId InboundWaiter
  cancelReason : CancelReason
  readClosed : Bool
  hand : Option Hand
  ended : Bool

def Reader.new : Reader := ⟨∅, .none, false, none, false⟩

def Reader.recordCancelReason (reader : Reader) (reason : CancelReason) : Reader :=
  if reader.cancelReason = .none then { reader with cancelReason := reason } else reader

section CancelReason

variable (reader : Reader) (reason : CancelReason)

@[simp] theorem Reader.waiters_recordCancelReason :
    (reader.recordCancelReason reason).waiters = reader.waiters := by
  unfold recordCancelReason
  split <;> rfl

@[simp] theorem Reader.hand_recordCancelReason :
    (reader.recordCancelReason reason).hand = reader.hand := by
  unfold recordCancelReason
  split <;> rfl

@[simp] theorem Reader.ended_recordCancelReason :
    (reader.recordCancelReason reason).ended = reader.ended := by
  unfold recordCancelReason
  split <;> rfl

end CancelReason

/-- The sections of the clean-ups of the blob manager. -/
inductive CleanupOp where
  | failPending (streamId : PeerMessageId)
  | removeStream (streamId : PeerMessageId)
  | release (streamId : PeerMessageId)
  | dropPending (streamId : PeerMessageId)
  | expire (now : Instant)
  | drainReservations
  | clearTables
deriving DecidableEq, Repr

inductive Cleanup where
  | failInboundStream (streamId : PeerMessageId)
  /-- Also a stream that `recv_chunk_state` finds idle. -/
  | removeRecvStream (streamId : PeerMessageId)
  | dropReceiver (streamId : PeerMessageId)
  | expireRecvStreams (now : Instant)
  | failAllStreams
deriving DecidableEq, Repr

def Cleanup.ops : Cleanup → List CleanupOp
  | failInboundStream streamId => [.failPending streamId]
  | removeRecvStream streamId => [.removeStream streamId]
  | dropReceiver streamId => [.removeStream streamId, .dropPending streamId]
  | expireRecvStreams now => [.expire now]
  | failAllStreams => [.drainReservations]

/-- `acceptRxs` counts the channels of decisions, and `decisions` lists those that a taberna holds.
`begun` is for the account: the loop that received an id first, and the channel of the decision on
it. -/
structure Reception where
  dedupe : DedupeState
  acceptRxs : Nat
  decisions : HashMap AcceptReceiver (Option AcceptDecision)
  duplicates : List (Option DedupeDecision)
  outcomes : List InboundOutcome
  blob : BlobManager
  readers : HashMap CallisId Reader
  cleanups : List (List CleanupOp)
  begun : HashMap PeerMessageId (CallisId × AcceptReceiver)

def blobBufferFullError (direction : String) (capBytes : Nat) : AureliaError :=
  .withMessage .blobBufferFull
    ("direction=" ++ direction ++ " cap_bytes=" ++ toString capBytes ++ " reservation_based=true")

/-- What a loop meets while it has a request in hand. -/
structure HandInput where
  sessionActive : Bool
  hasCallis : Bool
  signalled : Except AureliaError Unit
  settings : Option BlobCallisSettings
  now : Instant
  deadline : Instant
  sendQueueSize : Nat

namespace Reception

def new (sendQueueSize : Nat) : Reception :=
  ⟨.new, 0, ∅, [], [], .new sendQueueSize, ∅, [], ∅⟩

def setReader (state : Reception) (callis : CallisId) (reader : Reader) : Reception :=
  { state with readers := state.readers.insert callis reader }

def pushOutcome (state : Reception) (outcome : InboundOutcome) : Reception :=
  { state with outcomes := state.outcomes ++ [outcome] }

def resolve (state : Reception) (resolved : List Resolution) : Reception :=
  { state with
    duplicates := state.duplicates.mapIdx fun index decision =>
      match Net.Inbound.resolution resolved index with
      | some sent => some sent
      | none => decision }

def dedupeComplete (state : Reception) (sendQueueSize : Nat) (peerMsgId : PeerMessageId)
    (result : Except AureliaError Unit) : Reception :=
  let (resolved, dedupe) := state.dedupe.dedupeComplete sendQueueSize peerMsgId result
  { state with dedupe }.resolve resolved

def dedupeAbandon (state : Reception) (peerMsgId : PeerMessageId) : Reception :=
  let (resolved, dedupe) := state.dedupe.dedupeAbandon peerMsgId
  { state with dedupe }.resolve resolved

def reply (state : Reception) (sendQueueSize : Nat) (peerMsgId : PeerMessageId)
    (result : Except AureliaError Unit) : Reception :=
  (state.dedupeComplete sendQueueSize peerMsgId result).pushOutcome (answerOf peerMsgId result)

/-- What `cancel_waiters` does about the id of a waiter that is not a duplicate. -/
def cancelId (state : Reception) (sendQueueSize : Nat) (peerMsgId : PeerMessageId)
    (reason : CancelReason) : Reception :=
  if reason.shouldError then
    state.dedupeComplete sendQueueSize peerMsgId (.error (.new .peerUnavailable))
  else state.dedupeAbandon peerMsgId

def setBlob (state : Reception) (blob : BlobManager) : Reception := { state with blob }

def requests (state : Reception) : HashMap PeerMessageId PendingBlobRequest :=
  state.blob.inbound.pendingRequests

def streams (state : Reception) : HashMap PeerMessageId BlobRecvStream :=
  state.blob.inbound.recvStreams

def reservations (state : Reception) : HashMap PeerMessageId Nat :=
  state.blob.reservations.inbound

/-- The answers that come before the begin. -/
def refusal (reader : Reader) (arrival : Arrival) : Option InboundOutcome :=
  if reader.cancelReason ≠ .none then
    if !arrival.blob && reader.cancelReason.shouldError then
      some (.error arrival.peerMsgId (.new .peerUnavailable))
    else some .skip
  else if !arrival.blob && arrival.sessionClosing then
    some (.error arrival.peerMsgId (.new .peerUnavailable))
  else if !arrival.blob && !arrival.known then
    some (.error arrival.peerMsgId (.new .unknownTaberna))
  else none

/-- `handle_inbound_frame_with_observability` for a message or a blob request, up to the begin. -/
def receive (state : Reception) (callis : CallisId) (reader : Reader) (arrival : Arrival) :
    Reception :=
  let id := arrival.peerMsgId
  match refusal reader arrival with
  | some outcome => state.pushOutcome outcome
  | none =>
    match state.dedupe.dedupeBegin id state.duplicates.length with
    | (.duplicate decision, dedupe) =>
      { state with dedupe }.pushOutcome (Net.Inbound.outcomeFor id (outcomeOf id decision))
    | (.pendingDuplicate decisionRx, dedupe) =>
      { state with dedupe, duplicates := state.duplicates ++ [none] }.setReader callis
        { reader with waiters := reader.waiters.insert id (.duplicate decisionRx) }
    | (.new, dedupe) =>
      let pending := ⟨arrival.dstTaberna, state.acceptRxs, ⟨false, false, none⟩⟩
      { state with
        dedupe
        acceptRxs := state.acceptRxs + 1
        begun := state.begun.insert id (callis, state.acceptRxs) }.setReader callis
          { reader with hand := some ⟨id, pending, .begun arrival⟩ }

/-- The decision on the channel of a waiter, if one has been sent. -/
def decisionOn (state : Reception) (acceptRx : AcceptReceiver) : Option AcceptDecision :=
  (state.decisions.lookup acceptRx).join

/-- `drain_accept_waiters` and `drain_blob_callis_waiters` for one waiter, up to the first section
that another task can come before. -/
def drain (state : Reception) (callis : CallisId) (reader : Reader) (id : PeerMessageId)
    (sendQueueSize : Nat) : Option Reception :=
  let rest := { reader with waiters := reader.waiters.erase id }
  (reader.waiters.lookup id).bind fun
    | .message _ acceptRx =>
      (state.decisionOn acceptRx).map fun decision =>
        (state.setReader callis rest).reply sendQueueSize id (acceptResult decision)
    | .blobAccept pending =>
      (state.decisionOn pending.acceptRx).map fun decision =>
        if decision = .accepted then
          let pending := { pending with receiver := { pending.receiver with accepted := true } }
          (state.setBlob (state.blob.addPendingRequest id
            ⟨pending.dstTaberna, pending.receiver⟩)).setReader callis
              { rest with hand := some ⟨id, pending, .accepted⟩ }
        else
          let answer := .reply (acceptResult decision)
          state.setReader callis { rest with hand := some ⟨id, pending, .releasing answer⟩ }
    | .blobCallis pending deadline =>
      some (state.setReader callis { rest with hand := some ⟨id, pending, .waiting deadline⟩ })
    | .duplicate decisionRx =>
      match (state.duplicates[decisionRx]?).join with
      | some decision =>
        some ((state.setReader callis rest).pushOutcome (drainDuplicateWaiter id decision))
      | none =>
        -- A sender dropped with its entry closes the channel: the waiter reads `Abandoned`.
        if decisionRx ∈ state.dedupe.waiters id then none
        else some ((state.setReader callis rest).pushOutcome .skip)

def setHand (state : Reception) (callis : CallisId) (reader : Reader) (hand : Hand)
    (phase : HandPhase) : Reception :=
  state.setReader callis { reader with hand := some { hand with phase } }

/-- The hand becomes free, and the request is listed as a waiter. -/
def insertWaiter (state : Reception) (callis : CallisId) (reader : Reader) (hand : Hand)
    (waiter : InboundWaiter) : Reception :=
  state.setReader callis
    { reader with waiters := reader.waiters.insert hand.peerMsgId waiter, hand := none }

/-- The taberna takes the request, and the loop waits for its decision. -/
def enqueue (state : Reception) (callis : CallisId) (reader : Reader) (hand : Hand)
    (waiter : InboundWaiter) : Reception :=
  { state with decisions := state.decisions.insert hand.pending.acceptRx none }.insertWaiter callis
    reader hand waiter

/-- The first section of `drop_pending_request`. -/
def dropRequest (state : Reception) (callis : CallisId) (reader : Reader) (id : PeerMessageId)
    (pending : BlobAcceptPending) (answer : Answer) : Reception :=
  let phase := if (state.requests.lookup id).isSome then .releasing answer else .answering answer
  (state.setBlob (state.blob.removePendingRequest id)).setReader callis
    { reader with hand := some ⟨id, pending, phase⟩ }

/-- A blob callis is there: its settings, and the first section of `activate_pending_request`. -/
def activate (state : Reception) (callis : CallisId) (reader : Reader) (hand : Hand)
    (settings : Option BlobCallisSettings) : Reception :=
  state.setHand callis reader hand
    (match settings with
      | none => .answering (.reply (.error (.new .blobCallisWithoutPrimary)))
      | some settings =>
        if (state.streams.lookup hand.peerMsgId).isSome then .answering (.reply (.ok ()))
        else .absent settings)

/-- The next section of the work on the request in hand. -/
def handStep (state : Reception) (callis : CallisId) (reader : Reader) (hand : Hand)
    (input : HandInput) : Reception :=
  let id := hand.peerMsgId
  let fail (error : AureliaError) :=
    state.setHand callis reader hand (.answering (.reply (.error error)))
  match hand.phase with
  | .begun arrival =>
    if arrival.blob = false then
      match arrival.enqueued with
      | .error error => fail error
      | .ok _ =>
        state.enqueue callis reader hand (.message arrival.dstTaberna hand.pending.acceptRx)
    else if arrival.known = false then fail (.new .unknownTaberna)
    else
      match arrival.reserved with
      | none => fail (blobBufferFullError "inbound" arrival.capBytes)
      | some bytes =>
        (state.setBlob (state.blob.reserveInbound id bytes)).setHand callis reader hand
          (.reserved arrival)
  | .reserved arrival =>
    match arrival.enqueued with
    | .error error => state.setHand callis reader hand (.releasing (.reply (.error error)))
    | .ok _ => state.enqueue callis reader hand (.blobAccept hand.pending)
  | .accepted =>
    if input.sessionActive = false then
      state.dropRequest callis reader id hand.pending
        (.reply (.error (.new .blobCallisWithoutPrimary)))
    else if input.hasCallis then state.activate callis reader hand input.settings
    else
      match input.signalled with
      | .error error => fail error
      | .ok _ =>
        state.insertWaiter callis reader hand (.blobCallis hand.pending input.deadline)
  | .waiting deadline =>
    if deadline ≤ input.now then
      state.dropRequest callis reader id hand.pending (.reply (.error (.new .sendTimeout)))
    else if input.hasCallis then state.activate callis reader hand input.settings
    else state.insertWaiter callis reader hand (.blobCallis hand.pending deadline)
  | .absent settings =>
    match state.requests.lookup id with
    | none => fail (.new .blobStreamNotFound)
    | some request =>
      (state.setBlob (state.blob.removePendingRequest id)).setHand callis reader hand
        (.taken request settings)
  | .taken request settings =>
    match RingSize.new settings.chunkSize settings.ackWindowChunks with
    | .error error => fail error
    | .ok size =>
      (state.setBlob (state.blob.insertRecvStream id
        ⟨request.tabernaId, request.receiver, .new size, input.deadline⟩)).setHand callis reader
          hand (.answering (.reply (.ok ())))
  | .releasing answer =>
    (state.setBlob (state.blob.releaseInbound id)).setHand callis reader hand (.answering answer)
  | .answering answer =>
    let freed := state.setReader callis { reader with hand := none }
    match answer with
    | .reply result => freed.reply input.sendQueueSize id result
    | .cancelled reason => freed.cancelId input.sendQueueSize id reason

/-- `cancel_waiters` for one waiter. -/
def cancel (state : Reception) (callis : CallisId) (reader : Reader) (id : PeerMessageId)
    (sendQueueSize : Nat) : Option Reception :=
  let rest := { reader with waiters := reader.waiters.erase id }
  let answer := .cancelled reader.cancelReason
  (reader.waiters.lookup id).map fun
    | .message _ _ =>
      (state.setReader callis rest).cancelId sendQueueSize id reader.cancelReason
    | .blobAccept pending =>
      state.setReader callis { rest with hand := some ⟨id, pending, .releasing answer⟩ }
    | .blobCallis pending _ => state.dropRequest callis rest id pending answer
    | .duplicate _ => state.setReader callis rest

/-- One section of a clean-up, with the sections that follow from it. -/
def cleanupStep (state : Reception) : CleanupOp → List CleanupOp × Reception
  | .failPending id =>
    if (state.requests.lookup id).isSome then
      ([.release id], state.setBlob (state.blob.removePendingRequest id))
    else ([.removeStream id], state)
  | .removeStream id =>
    ([.release id], state.setBlob (state.blob.setRecvStreams (state.streams.erase id)))
  | .release id => ([], state.setBlob (state.blob.releaseInbound id))
  | .dropPending id =>
    if (state.requests.lookup id).isSome then
      ([.release id], state.setBlob (state.blob.removePendingRequest id))
    else ([], state)
  | .expire now =>
    ((state.streams.entries.filter fun entry => decide (entry.2.deadline ≤ now)).map
        fun entry => .release entry.1,
      state.setBlob (state.blob.setRecvStreams
        (state.streams.retain fun _ stream => decide (now < stream.deadline))))
  | .drainReservations =>
    ([.clearTables], state.setBlob { state.blob with
      reservations := { state.blob.reservations with inbound := ∅ } })
  | .clearTables =>
    ([], state.setBlob ((state.blob.setPendingRequests ∅).setRecvStreams ∅))

inductive Label where
  | open (callis : CallisId)
  | receive (callis : CallisId) (arrival : Arrival)
  /-- A taberna decides. -/
  | decide (acceptRx : AcceptReceiver) (decision : AcceptDecision)
  | drain (callis : CallisId) (peerMsgId : PeerMessageId) (sendQueueSize : Nat)
  | hand (callis : CallisId) (input : HandInput)
  /-- The end of the stream, a read error or a shutdown. -/
  | close (callis : CallisId) (reason : CancelReason)
  | cancel (callis : CallisId) (peerMsgId : PeerMessageId) (sendQueueSize : Nat)
  | exit (callis : CallisId)
  /-- A frame whose handler returns an error, `CLOSE` among them, breaks the loop. -/
  | failFrame (callis : CallisId) (reason : CancelReason)
  /-- A new session of the peer. -/
  | clearDedupe
  | startCleanup (cleanup : Cleanup)
  | cleanup (index : Nat)

def idleReader (state : Reception) (callis : CallisId) : Option Reader :=
  (state.readers.lookup callis).bind fun reader =>
    if reader.ended = false ∧ reader.hand = none then some reader else none

def step (state : Reception) : Label → Option Reception
  | .open callis =>
    if (state.readers.lookup callis).isSome then none else some (state.setReader callis .new)
  | .receive callis arrival =>
    (state.idleReader callis).bind fun reader =>
      if reader.readClosed = false then some (state.receive callis reader arrival) else none
  | .decide acceptRx decision =>
    if state.decisions.lookup acceptRx = some none then
      some { state with decisions := state.decisions.insert acceptRx (some decision) }
    else none
  | .drain callis id sendQueueSize =>
    (state.idleReader callis).bind fun reader => state.drain callis reader id sendQueueSize
  | .hand callis input =>
    (state.readers.lookup callis).bind fun reader =>
      reader.hand.map fun hand => state.handStep callis reader hand input
  | .close callis reason =>
    (state.idleReader callis).map fun reader =>
      state.setReader callis { reader.recordCancelReason reason with readClosed := true }
  | .cancel callis id sendQueueSize =>
    (state.idleReader callis).bind fun reader =>
      if reader.cancelReason ≠ .none then state.cancel callis reader id sendQueueSize else none
  | .exit callis =>
    (state.idleReader callis).bind fun reader =>
      if reader.readClosed = true ∧ reader.waiters.entries = [] then
        some (state.setReader callis { reader with ended := true })
      else none
  | .failFrame callis reason =>
    (state.idleReader callis).bind fun reader =>
      if reader.readClosed = false then
        some (state.setReader callis { reader.recordCancelReason reason with ended := true })
      else none
  | .clearDedupe => some { state with dedupe := state.dedupe.clear }
  | .startCleanup cleanup => some { state with cleanups := state.cleanups ++ [cleanup.ops] }
  | .cleanup index =>
    (state.cleanups[index]?).bind fun
      | [] => none
      | op :: rest =>
        let (follow, next) := state.cleanupStep op
        some { next with cleanups := next.cleanups.set index (follow ++ rest) }

def system (sendQueueSize : Nat) : Machine.System Reception Label :=
  .ofStep (· = .new sendQueueSize) step

end Reception

end AureliaPeering.Callis
