import AureliaPeering.Ring.OutboundRing

/-!
The outbound side of the blob manager: the streams, the chunks in flight, and the response frames
waiting to be written.

Each definition is what one function does while it holds the outbound mutex.  Response frames are
stored under their message id, whichever side allocated it, and queued by lane.
-/

namespace AureliaPeering.Blob

open Collections AureliaPeering.Ring

inductive BlobResponseLane where
  | ack
  | error
  | complete
deriving DecidableEq, Repr

structure BlobResponseCapacities where
  ack : Nat
  error : Nat
  complete : Nat
deriving DecidableEq, Repr

def blobAckCapacityMultiplier : Nat := 16
def blobErrorCapacityMultiplier : Nat := 2
def blobCompleteCapacityMultiplier : Nat := 2

namespace BlobResponseCapacities

def fromSendQueueSize (sendQueueSize : Nat) : BlobResponseCapacities :=
  let size := max sendQueueSize 1
  ⟨saturatingMul size blobAckCapacityMultiplier, saturatingMul size blobErrorCapacityMultiplier,
    saturatingMul size blobCompleteCapacityMultiplier⟩

def capacity (capacities : BlobResponseCapacities) : BlobResponseLane → Nat
  | .ack => capacities.ack
  | .error => capacities.error
  | .complete => capacities.complete

end BlobResponseCapacities

inductive BlobWriteLease where
  | ack (peerMsgId : PeerMessageId)
  | error (peerMsgId : PeerMessageId) (payload : Bytes)
  | chunk (streamId peerMsgId : PeerMessageId) (chunk : ChunkWriteLease)
  | finish (streamId peerMsgId : PeerMessageId) (payload : Bytes)
deriving DecidableEq, Repr

namespace BlobWriteLease

def lane : BlobWriteLease → Option BlobResponseLane
  | ack _ => some .ack
  | error _ _ => some .error
  | finish _ _ _ => some .complete
  | chunk _ _ _ => none

def streamId : BlobWriteLease → Option PeerMessageId
  | ack _ | error _ _ => none
  | chunk streamId _ _ | finish streamId _ _ => some streamId

def peerMsgId : BlobWriteLease → PeerMessageId
  | ack peerMsgId | error peerMsgId _ | chunk _ peerMsgId _ | finish _ peerMsgId _ => peerMsgId

def isChunk : BlobWriteLease → Bool
  | chunk _ _ _ => true
  | ack _ | error _ _ | finish _ _ _ => false

end BlobWriteLease

inductive BlobWriteSlotState where
  | ready
  | writing (callisId : CallisId)
  | inFlight (callisId : CallisId)
  | replayReady (previousCallisId : CallisId)
deriving DecidableEq, Repr

namespace BlobWriteSlotState

def leasable : BlobWriteSlotState → Bool
  | ready | replayReady _ => true
  | writing _ | inFlight _ => false

def holder : BlobWriteSlotState → Option CallisId
  | writing callisId | inFlight callisId => some callisId
  | ready | replayReady _ => none

end BlobWriteSlotState

structure BlobWriteSlot where
  streamId : Option PeerMessageId
  write : BlobWriteLease
  state : BlobWriteSlotState
deriving DecidableEq, Repr

/-- What the loss of callis does to a slot. -/
def BlobWriteSlot.requeue (lost : CallisId → Bool) (slot : BlobWriteSlot) : BlobWriteSlot :=
  match slot.state.holder with
  | some callisId => if lost callisId then { slot with state := .replayReady callisId } else slot
  | none => slot

structure InflightBlobFrame where
  streamId : PeerMessageId
  callisId : CallisId
  isChunk : Bool
deriving DecidableEq, Repr

structure BlobOutboundState where
  streams : HashMap PeerMessageId OutboundRingBuffer
  inflight : HashMap PeerMessageId InflightBlobFrame
  writeSlots : HashMap PeerMessageId BlobWriteSlot
  ackReady : List PeerMessageId
  errorReady : List PeerMessageId
  completeReady : List PeerMessageId
  responseCapacities : BlobResponseCapacities

namespace BlobOutboundState

def new (sendQueueSize : Nat) : BlobOutboundState :=
  ⟨∅, ∅, ∅, [], [], [], .fromSendQueueSize sendQueueSize⟩

def responseLane (outbound : BlobOutboundState) : BlobResponseLane → List PeerMessageId
  | .ack => outbound.ackReady
  | .error => outbound.errorReady
  | .complete => outbound.completeReady

def setResponseLane (outbound : BlobOutboundState) (lane : BlobResponseLane)
    (ready : List PeerMessageId) : BlobOutboundState :=
  match lane with
  | .ack => { outbound with ackReady := ready }
  | .error => { outbound with errorReady := ready }
  | .complete => { outbound with completeReady := ready }

def pushReady (outbound : BlobOutboundState) (lane : BlobResponseLane)
    (peerMsgId : PeerMessageId) : BlobOutboundState :=
  outbound.setResponseLane lane (outbound.responseLane lane ++ [peerMsgId])

/-- The ids that no slot is stored under leave their lanes. -/
def pruneResponseReady (outbound : BlobOutboundState) : BlobOutboundState :=
  let valid := fun peerMsgId => (outbound.writeSlots.lookup peerMsgId).isSome
  { outbound with
    ackReady := outbound.ackReady.filter valid
    errorReady := outbound.errorReady.filter valid
    completeReady := outbound.completeReady.filter valid }

def laneFull (outbound : BlobOutboundState) (lane : BlobResponseLane) : Bool :=
  decide (outbound.responseCapacities.capacity lane ≤ (outbound.responseLane lane).length)

/-- A response is dropped if its id is taken or its lane is full. -/
def enqueueBlobWrite (outbound : BlobOutboundState) (write : BlobWriteLease) :
    BlobOutboundState × Bool :=
  match write.lane with
  | none => (outbound, false)
  | some lane =>
    if (outbound.writeSlots.lookup write.peerMsgId).isSome then (outbound, false)
    else if outbound.laneFull lane then (outbound, false)
    else
      ({ outbound with
          writeSlots := outbound.writeSlots.insert write.peerMsgId
            ⟨write.streamId, write, .ready⟩ }.pushReady lane write.peerMsgId, true)

/-- The first id of a lane whose slot can be leased, with the ids behind it. -/
def firstLeasable (slots : HashMap PeerMessageId BlobWriteSlot) :
    List PeerMessageId → Option (BlobWriteSlot × PeerMessageId × List PeerMessageId)
  | [] => none
  | peerMsgId :: rest =>
    match slots.lookup peerMsgId with
    | some slot => if slot.state.leasable then some (slot, peerMsgId, rest) else
        firstLeasable slots rest
    | none => firstLeasable slots rest

/-- Lease from one lane.  The ids in front of the leased one are gone, all of them if there is
none. -/
def leaseFromLane (outbound : BlobOutboundState) (callisId : CallisId) (lane : BlobResponseLane) :
    Option BlobWriteLease × BlobOutboundState :=
  match firstLeasable outbound.writeSlots (outbound.responseLane lane) with
  | none => (none, outbound.setResponseLane lane [])
  | some (slot, peerMsgId, rest) =>
    (some slot.write,
      { outbound.setResponseLane lane rest with
        writeSlots := outbound.writeSlots.insert peerMsgId
          { slot with state := .writing callisId } })

def nextBlobWriteSlot (outbound : BlobOutboundState) (callisId : CallisId) :
    Option BlobWriteLease × BlobOutboundState :=
  match outbound.leaseFromLane callisId .ack with
  | (some write, outbound) => (some write, outbound)
  | (none, outbound) =>
    match outbound.leaseFromLane callisId .error with
    | (some write, outbound) => (some write, outbound)
    | (none, outbound) => outbound.leaseFromLane callisId .complete

def setSlotState (outbound : BlobOutboundState) (peerMsgId : PeerMessageId)
    (state : BlobWriteSlotState) : BlobOutboundState :=
  { outbound with
    writeSlots := outbound.writeSlots.adjust peerMsgId fun slot => { slot with state } }

/-- The slot stored under the id of the write is marked, whatever it holds. -/
def markDispatchInflight (outbound : BlobOutboundState) (write : BlobWriteLease)
    (callisId : CallisId) : BlobOutboundState :=
  let marked := outbound.setSlotState write.peerMsgId (.inFlight callisId)
  match write with
  | .chunk streamId peerMsgId _ =>
    { marked with inflight := marked.inflight.insert peerMsgId ⟨streamId, callisId, true⟩ }
  | .ack _ | .error _ _ | .finish _ _ _ => marked

def slotLane (outbound : BlobOutboundState) (peerMsgId : PeerMessageId) : Option BlobResponseLane :=
  (outbound.writeSlots.lookup peerMsgId).bind fun slot => slot.write.lane

def pushSlot (outbound : BlobOutboundState) (peerMsgId : PeerMessageId) : BlobOutboundState :=
  match outbound.slotLane peerMsgId with
  | some lane => outbound.pushReady lane peerMsgId
  | none => outbound

def rollbackDispatchInflight (outbound : BlobOutboundState) (write : BlobWriteLease)
    (callisId : CallisId) : BlobOutboundState :=
  match write with
  | .chunk _ peerMsgId _ => { outbound with inflight := outbound.inflight.erase peerMsgId }
  | .ack peerMsgId | .error peerMsgId _ | .finish _ peerMsgId _ =>
    (outbound.setSlotState peerMsgId (.replayReady callisId)).pushSlot peerMsgId

/-- A response that was written is forgotten. -/
def finishBlobWriteAttempt (outbound : BlobOutboundState) (write : BlobWriteLease)
    (callisId : CallisId) (written : Bool) : BlobOutboundState :=
  if written = false then outbound.rollbackDispatchInflight write callisId
  else if write.isChunk then outbound
  else { outbound with writeSlots := outbound.writeSlots.erase write.peerMsgId }

/-- The first part of `handle_ack` and of `handle_error`: whatever is kept under the id is gone. -/
def resolve (outbound : BlobOutboundState) (peerMsgId : PeerMessageId) :
    Option InflightBlobFrame × BlobOutboundState :=
  (outbound.inflight.lookup peerMsgId,
    { outbound with
      inflight := outbound.inflight.erase peerMsgId
      writeSlots := outbound.writeSlots.erase peerMsgId })

/-- What `unregister_outbound_stream` and `fail_stream` do to the tables. -/
def removeStream (outbound : BlobOutboundState) (streamId : PeerMessageId) : BlobOutboundState :=
  { outbound with
    streams := outbound.streams.erase streamId
    inflight := outbound.inflight.retain fun _ entry => entry.streamId ≠ streamId
    writeSlots := outbound.writeSlots.retain fun _ slot => slot.streamId ≠ some streamId
  }.pruneResponseReady

/-- The ids of the slots being written on the callis that are lost. -/
def heldSlots (outbound : BlobOutboundState) (lost : CallisId → Bool) : List PeerMessageId :=
  (outbound.writeSlots.entries.filter fun entry => (entry.2.state.holder).any lost).map Sigma.fst

/-- The responses being written on the callis that are lost become ready again, in the order of a
walk over the slots. -/
def requeueResponses (outbound : BlobOutboundState) (lost : CallisId → Bool)
    (order : List PeerMessageId) : BlobOutboundState :=
  order.foldl pushSlot
    { outbound with writeSlots := outbound.writeSlots.mapValues (BlobWriteSlot.requeue lost) }

/-- `requeue_inflight_for_callis` up to the rings of the streams concerned. -/
def requeueInflightForCallis (outbound : BlobOutboundState) (callisId : CallisId)
    (order : List PeerMessageId) : BlobOutboundState :=
  { outbound with
    inflight := outbound.inflight.retain fun _ entry => entry.callisId ≠ callisId
  }.requeueResponses (· = callisId) order

/-- `requeue_all_inflight` up to the rings of the streams concerned. -/
def requeueAllInflight (outbound : BlobOutboundState) (order : List PeerMessageId) :
    BlobOutboundState :=
  { outbound with inflight := ∅ }.requeueResponses (fun _ => true) order

def clear (outbound : BlobOutboundState) : BlobOutboundState :=
  ⟨∅, ∅, ∅, [], [], [], outbound.responseCapacities⟩

end BlobOutboundState

end AureliaPeering.Blob
