import AureliaPeering.Blob.OutboundState
import AureliaPeering.Blob.ReceiverStream

/-!
The inbound side of the blob manager, its reservations, and the manager itself.

Requests and streams are listed under the message id of the request, which the peer allocated.
-/

namespace AureliaPeering.Blob

open Collections AureliaPeering.Ring

/-- `fail` as a whole: the error, then the flag. -/
def BlobReceiverState.fail (receiver : BlobReceiverState) (error : AureliaError) :
    BlobReceiverState :=
  { receiver with error := some error, completed := true }

structure PendingBlobRequest where
  tabernaId : TabernaId
  receiver : BlobReceiverState
deriving DecidableEq, Repr

structure BlobRecvStream where
  tabernaId : TabernaId
  receiver : BlobReceiverState
  ring : InboundRingBuffer
  deadline : Instant

structure BlobInboundState where
  pendingRequests : HashMap PeerMessageId PendingBlobRequest
  recvStreams : HashMap PeerMessageId BlobRecvStream
  completedRecvStreams : HashMap PeerMessageId Instant

/-- The bytes reserved for each stream, local ones and those of the peer. -/
structure BlobReservationState where
  outbound : HashMap PeerMessageId Nat
  inbound : HashMap PeerMessageId Nat

structure BlobManager where
  outbound : BlobOutboundState
  inbound : BlobInboundState
  reservations : BlobReservationState

namespace BlobManager

def new (sendQueueSize : Nat) : BlobManager := ⟨.new sendQueueSize, ⟨∅, ∅, ∅⟩, ⟨∅, ∅⟩⟩

def releaseOutbound (blob : BlobManager) (streamId : PeerMessageId) : BlobManager :=
  { blob with
    reservations := { blob.reservations with
      outbound := blob.reservations.outbound.erase streamId } }

def releaseInbound (blob : BlobManager) (streamId : PeerMessageId) : BlobManager :=
  { blob with
    reservations := { blob.reservations with
      inbound := blob.reservations.inbound.erase streamId } }

def reserveInbound (blob : BlobManager) (streamId : PeerMessageId) (bytes : Nat) : BlobManager :=
  { blob with
    reservations := { blob.reservations with
      inbound := blob.reservations.inbound.insert streamId bytes } }

def reserveOutbound (blob : BlobManager) (streamId : PeerMessageId) (bytes : Nat) : BlobManager :=
  { blob with
    reservations := { blob.reservations with
      outbound := blob.reservations.outbound.insert streamId bytes } }

def setPendingRequests (blob : BlobManager)
    (pendingRequests : HashMap PeerMessageId PendingBlobRequest) : BlobManager :=
  { blob with inbound := { blob.inbound with pendingRequests } }

def setRecvStreams (blob : BlobManager) (recvStreams : HashMap PeerMessageId BlobRecvStream) :
    BlobManager :=
  { blob with inbound := { blob.inbound with recvStreams } }

def addPendingRequest (blob : BlobManager) (streamId : PeerMessageId)
    (request : PendingBlobRequest) : BlobManager :=
  blob.setPendingRequests (blob.inbound.pendingRequests.insert streamId request)

def removePendingRequest (blob : BlobManager) (streamId : PeerMessageId) : BlobManager :=
  blob.setPendingRequests (blob.inbound.pendingRequests.erase streamId)

def insertRecvStream (blob : BlobManager) (streamId : PeerMessageId) (stream : BlobRecvStream) :
    BlobManager :=
  blob.setRecvStreams (blob.inbound.recvStreams.insert streamId stream)

def unregisterOutboundStream (blob : BlobManager) (streamId : PeerMessageId) : BlobManager :=
  let released := blob.releaseOutbound streamId
  { released with outbound := released.outbound.removeStream streamId }

/-- The reservation is released whether or not there was a stream. -/
def removeRecvStream (blob : BlobManager) (streamId : PeerMessageId) :
    Option BlobRecvStream × BlobManager :=
  let removed := blob.setRecvStreams (blob.inbound.recvStreams.erase streamId)
  (blob.inbound.recvStreams.lookup streamId, removed.releaseInbound streamId)

/-- With the receiver that was failed, if there was one. -/
def failInboundStream (blob : BlobManager) (streamId : PeerMessageId) (error : AureliaError) :
    Option BlobReceiverState × BlobManager :=
  match blob.inbound.pendingRequests.lookup streamId with
  | some pending =>
    (some (pending.receiver.fail error),
      (blob.removePendingRequest streamId).releaseInbound streamId)
  | none =>
    let (removed, blob) := blob.removeRecvStream streamId
    (removed.map fun stream => stream.receiver.fail error, blob)

end BlobManager

end AureliaPeering.Blob
