import AureliaPeering.Session.PeerSession
import AureliaPeering.Store.Items

/-!
The inbound path of an endpoint: receive loops, their waiters, and the tabernas behind them.

A delivery stands for the request a taberna holds together with the channel of its decision, a
duplicate for the channel of a pending duplicate.  Both tables only grow, so that an index names a
channel for good.  The waiters of all receive loops are kept in one list; a receive loop has at
most one waiter for an id.
-/

namespace AureliaPeering.Net

open Collections Store Session

inductive AcceptDecision where
  | accepted
  | rejected (error : AureliaError)
  | closed
deriving DecidableEq, Repr

/-- A request handed to a taberna.  The incarnation of the sending process is for the account
only. -/
structure Delivery where
  peerMsgId : PeerMessageId
  incarnation : Nat
  decision : Option AcceptDecision
deriving DecidableEq, Repr

def Delivery.live (delivery : Delivery) : Bool :=
  delivery.decision = none || delivery.decision = some .accepted

structure Duplicate where
  peerMsgId : PeerMessageId
  decision : Option DedupeDecision
deriving DecidableEq, Repr

inductive WaiterKind where
  | message (token : AcceptReceiver)
  | blobAccept (token : AcceptReceiver)
  | blobCallis (token : AcceptReceiver)
  | duplicate (decisionRx : DecisionSender)
deriving DecidableEq, Repr

/-- The delivery a waiter owns, if it is not a duplicate. -/
def WaiterKind.token : WaiterKind → Option AcceptReceiver
  | .message token | .blobAccept token | .blobCallis token => some token
  | .duplicate _ => none

structure InboundWaiter where
  callis : CallisId
  peerMsgId : PeerMessageId
  kind : WaiterKind
deriving DecidableEq, Repr

inductive InboundOutcome where
  | ack (peerMsgId : PeerMessageId)
  | error (peerMsgId : PeerMessageId) (error : AureliaError)
  | skip
deriving DecidableEq, Repr

/-- The outcome that a completion is answered with. -/
def answerOf (peerMsgId : PeerMessageId) : Except AureliaError Unit → InboundOutcome
  | .ok _ => .ack peerMsgId
  | .error error => .error peerMsgId error

def drainDuplicateWaiter (peerMsgId : PeerMessageId) : DedupeDecision → InboundOutcome
  | .ack => .ack peerMsgId
  | .error error => .error peerMsgId error
  | .abandoned => .skip

/-- The result a decision stands for, where no blob manager is asked. -/
def acceptResult : AcceptDecision → Except AureliaError Unit
  | .accepted => .ok ()
  | .rejected error => .error error
  | .closed => .error (.new .remoteTabernaRejected)

/-- What the blob manager makes of an accepted blob request. -/
inductive BlobActivation where
  | ready
  | failed (error : AureliaError)
  | waiting
deriving DecidableEq, Repr

structure Inbound where
  session : PeerSession
  waiters : List InboundWaiter
  outcomes : List InboundOutcome
  deliveries : List Delivery
  duplicates : List Duplicate

def wireFlagBlob : Nat := 1

/-- `handle_blob_request`: the begin comes before the taberna is looked up. -/
def handleBlobRequest (session : PeerSession) (message : PeerMessage)
    (sink : Option (Except AureliaError AcceptReceiver)) (sender : DecisionSender)
    (sendQueueSize : Nat) : ReceiveSchedule × List Resolution × PeerSession :=
  session.schedule message (sink.getD (.error (.new .unknownTaberna))) sender
    sendQueueSize

namespace Inbound

def setDedupe (inbound : Inbound) (dedupe : DedupeState) : Inbound :=
  { inbound with session := { inbound.session with dedupe := dedupe } }

/-- A later waiter of a receive loop for the same id takes the place of the earlier one. -/
def insertWaiter (inbound : Inbound) (waiter : InboundWaiter) : Inbound :=
  { inbound with
    waiters := inbound.waiters.filter (fun other =>
      !(other.callis = waiter.callis && other.peerMsgId = waiter.peerMsgId)) ++ [waiter] }

def removeWaiter (inbound : Inbound) (index : Nat) : Inbound :=
  { inbound with waiters := inbound.waiters.eraseIdx index }

def pushOutcome (inbound : Inbound) (outcome : InboundOutcome) : Inbound :=
  { inbound with outcomes := inbound.outcomes ++ [outcome] }

/-- The decision sent on the channel `index`, if one of the resolutions is for it. -/
def resolution (resolved : List Resolution) (index : DecisionSender) : Option DedupeDecision :=
  (resolved.find? fun resolution => resolution.1 = index).map Prod.snd

def resolve (inbound : Inbound) (resolved : List Resolution) : Inbound :=
  { inbound with
    duplicates := inbound.duplicates.mapIdx fun index duplicate =>
      match resolution resolved index with
      | some decision => { duplicate with decision := some decision }
      | none => duplicate }

def complete (inbound : Inbound) (sendQueueSize : Nat) (peerMsgId : PeerMessageId)
    (result : Except AureliaError Unit) : Inbound :=
  let (resolved, dedupe) :=
    inbound.session.dedupe.dedupeComplete sendQueueSize peerMsgId result
  (inbound.setDedupe dedupe).resolve resolved

def abandon (inbound : Inbound) (peerMsgId : PeerMessageId) : Inbound :=
  let (resolved, dedupe) := inbound.session.dedupe.dedupeAbandon peerMsgId
  (inbound.setDedupe dedupe).resolve resolved

def outcomeFor (peerMsgId : PeerMessageId) : ReceiveOutcome → InboundOutcome
  | .ack peerMsgId => .ack peerMsgId
  | .error error => .error peerMsgId error
  | .skip => .skip

def pushDelivery (inbound : Inbound) (peerMsgId : PeerMessageId) (incarnation : Nat) : Inbound :=
  { inbound with deliveries := inbound.deliveries ++ [⟨peerMsgId, incarnation, none⟩] }

def pushDuplicate (inbound : Inbound) (peerMsgId : PeerMessageId) : Inbound :=
  { inbound with duplicates := inbound.duplicates ++ [⟨peerMsgId, none⟩] }

/-- Act on the schedule of a received message. -/
def applySchedule (inbound : Inbound) (callis : CallisId) (peerMsgId : PeerMessageId)
    (incarnation : Nat) (blob : Bool) : ReceiveSchedule → Inbound
  | .immediate outcome => inbound.pushOutcome (outcomeFor peerMsgId outcome)
  | .pending _ token =>
    (inbound.pushDelivery peerMsgId incarnation).insertWaiter
      ⟨callis, peerMsgId, if blob then .blobAccept token else .message token⟩
  | .pendingDuplicate decisionRx =>
    (inbound.pushDuplicate peerMsgId).insertWaiter ⟨callis, peerMsgId, .duplicate decisionRx⟩

/-- A message frame arrives at a receive loop.  `cancelled` is the cancel reason the loop has
recorded, `sink` what the registry and the queue of the taberna answer. -/
def receiveMessage (inbound : Inbound) (callis : CallisId) (incarnation : Nat)
    (message : PeerMessage) (cancelled : CancelReason)
    (sink : Option (Except AureliaError Unit)) (sendQueueSize : Nat) : Inbound :=
  let token := sink.map (Except.map fun _ => inbound.deliveries.length)
  let sender := inbound.duplicates.length
  if message.flags = wireFlagBlob then
    if cancelled ≠ .none then inbound.pushOutcome .skip
    else
      let (schedule, resolved, session) :=
        handleBlobRequest inbound.session message token sender sendQueueSize
      ({ inbound with session := session }.resolve resolved).applySchedule callis message.peerMsgId
        incarnation true schedule
  else if message.flags = 0 then
    if cancelled.shouldError then
      inbound.pushOutcome (.error message.peerMsgId (.new .peerUnavailable))
    else if cancelled ≠ .none then inbound.pushOutcome .skip
    else
      let (schedule, resolved, session) :=
        inbound.session.receiveMessageSchedule message token sender sendQueueSize
      ({ inbound with session := session }.resolve resolved).applySchedule callis message.peerMsgId
        incarnation false schedule
  else inbound

/-- A taberna decides about a request it holds. -/
def decide (inbound : Inbound) (token : AcceptReceiver) (decision : AcceptDecision) :
    Option Inbound :=
  match inbound.deliveries[token]? with
  | some delivery =>
    if delivery.decision = none then
      some { inbound with
        deliveries := inbound.deliveries.set token { delivery with decision := some decision } }
    else none
  | none => none

/-- The decision on the delivery of a waiter, if the channel is ready. -/
def decisionOn (inbound : Inbound) (token : AcceptReceiver) : Option AcceptDecision :=
  (inbound.deliveries[token]?).bind Delivery.decision

/-- The owner of a delivery completes its begin and answers. -/
def finish (inbound : Inbound) (sendQueueSize : Nat) (peerMsgId : PeerMessageId)
    (result : Except AureliaError Unit) : Inbound :=
  (inbound.complete sendQueueSize peerMsgId result).pushOutcome (answerOf peerMsgId result)

/-- An accepted blob request is answered once the blob manager has activated it. -/
def activate (inbound : Inbound) (waiter : InboundWaiter) (token : AcceptReceiver)
    (sendQueueSize : Nat) : BlobActivation → Inbound
  | .ready => inbound.finish sendQueueSize waiter.peerMsgId (.ok ())
  | .failed error => inbound.finish sendQueueSize waiter.peerMsgId (.error error)
  | .waiting => inbound.insertWaiter { waiter with kind := .blobCallis token }

def drain (inbound : Inbound) (index : Nat) (activation : BlobActivation) (sendQueueSize : Nat) :
    Option Inbound :=
  match inbound.waiters[index]? with
  | none => none
  | some waiter =>
    let rest := inbound.removeWaiter index
    match waiter.kind with
    | .message token =>
      (inbound.decisionOn token).map fun decision =>
        rest.finish sendQueueSize waiter.peerMsgId (acceptResult decision)
    | .blobAccept token =>
      (inbound.decisionOn token).map fun decision =>
        if decision = .accepted then rest.activate waiter token sendQueueSize activation
        else rest.finish sendQueueSize waiter.peerMsgId (acceptResult decision)
    | .blobCallis token => some (rest.activate waiter token sendQueueSize activation)
    | .duplicate decisionRx =>
      match (inbound.duplicates[decisionRx]?).bind Duplicate.decision with
      | some decision =>
        some (rest.pushOutcome (drainDuplicateWaiter waiter.peerMsgId decision))
      | none =>
        -- A sender dropped with its entry closes the channel: the waiter reads `Abandoned`.
        if decisionRx ∈ inbound.session.dedupe.waiters waiter.peerMsgId then none
        else some (rest.pushOutcome .skip)

/-- `cancel_waiters` for one waiter. -/
def cancel (inbound : Inbound) (index : Nat) (reason : CancelReason) (sendQueueSize : Nat) :
    Option Inbound :=
  (inbound.waiters[index]?).map fun waiter =>
    let rest := inbound.removeWaiter index
    match waiter.kind with
    | .duplicate _ => rest
    | _ =>
      if reason.shouldError then
        rest.complete sendQueueSize waiter.peerMsgId
          (.error (.new .peerUnavailable))
      else rest.abandon waiter.peerMsgId

/-- A receive loop that ends on a frame error drops its waiters undecided. -/
def drop (inbound : Inbound) (index : Nat) : Option Inbound :=
  (inbound.waiters[index]?).map fun _ => inbound.removeWaiter index

end Inbound

end AureliaPeering.Net
