import AureliaPeering.Ring.OutboundChunks

/-!
The outbound ring buffer: the lifecycle of a stream beside its chunk assembly.

Each definition is what one operation does while it holds the ring's mutex.  `seal` and the
waiting operations take the mutex again and again; what they do each time is `sealTurn`,
`checkCapacity`, `checkInflightDrain` and `checkComplete`.
-/

namespace AureliaPeering.Ring

inductive OutboundLifecycle where
  | opened
  | sealing
  | awaitingComplete
  | completed
  | failed (error : AureliaError)
  | closed
deriving DecidableEq, Repr

namespace OutboundLifecycle

def failure : OutboundLifecycle → Option AureliaError
  | failed error => some error
  | _ => none

def senderError : OutboundLifecycle → Except AureliaError Unit
  | opened => .ok ()
  | failed error => .error error
  | sealing | awaitingComplete | completed | closed => .error (.new .peerUnavailable)

def sealError : OutboundLifecycle → Except AureliaError Unit
  | opened | sealing | awaitingComplete | completed => .ok ()
  | failed error => .error error
  | closed => .error (.new .peerUnavailable)

def markSealed : OutboundLifecycle → OutboundLifecycle
  | opened => sealing
  | lifecycle => lifecycle

def markFinalChunkSent : OutboundLifecycle → OutboundLifecycle
  | opened | sealing => awaitingComplete
  | lifecycle => lifecycle

def markComplete : OutboundLifecycle → OutboundLifecycle
  | failed error => failed error
  | _ => completed

def markFailed (error : AureliaError) : OutboundLifecycle → OutboundLifecycle
  | failed first => failed first
  | _ => failed error

def replaceFailure (error : AureliaError) (_ : OutboundLifecycle) : OutboundLifecycle :=
  failed error

def markClosed : OutboundLifecycle → OutboundLifecycle
  | failed error => failed error
  | _ => closed

def canDrainChunks : OutboundLifecycle → Bool
  | failed _ | closed => false
  | _ => true

def isClosed : OutboundLifecycle → Bool
  | closed => true
  | _ => false

def finalChunkMaterialized : OutboundLifecycle → Bool
  | awaitingComplete | completed => true
  | _ => false

end OutboundLifecycle

structure OutboundRingBuffer where
  lifecycle : OutboundLifecycle
  chunks : OutboundChunks

inductive TryPushAvailable where
  | accepted (bytes : Nat)
  | full
deriving DecidableEq, Repr

inductive CompletionNote where
  | ack
  | error (error : AureliaError)
deriving DecidableEq, Repr

def CompletionNote.chunkCompletion : CompletionNote → ChunkCompletion
  | ack => .ack
  | error _ => .error

/-- The result of one turn of `seal`. -/
inductive SealTurn where
  | done (result : Except AureliaError Unit)
  | waitForCapacity

namespace OutboundRingBuffer

def new (size : RingSize) : OutboundRingBuffer := ⟨.opened, .new size⟩

/-- `try_push_available` once it holds the mutex. -/
def tryPushAvailable (ring : OutboundRingBuffer) (data : Bytes) :
    OutboundRingBuffer × Except AureliaError TryPushAvailable :=
  match ring.lifecycle.senderError with
  | .error error => (ring, .error error)
  | .ok () =>
    if ring.chunks.canAcceptBytes then
      let (chunks, bytes, _) := ring.chunks.pushAvailable data
      ({ ring with chunks := chunks }, .ok (if bytes = 0 then .full else .accepted bytes))
    else (ring, .ok .full)

def sealTurn (ring : OutboundRingBuffer) : OutboundRingBuffer × SealTurn :=
  match ring.lifecycle.sealError with
  | .error error => (ring, .done (.error error))
  | .ok () =>
    if ring.lifecycle.finalChunkMaterialized then (ring, .done (.ok ()))
    else
      let lifecycle := ring.lifecycle.markSealed
      match ring.chunks.finalize with
      | (chunks, .waitForCapacity) => (⟨lifecycle, chunks⟩, .waitForCapacity)
      | (chunks, .finalized _) => (⟨lifecycle.markFinalChunkSent, chunks⟩, .done (.ok ()))

def leaseNextChunkForWrite (ring : OutboundRingBuffer) (callisId : CallisId)
    (peerMsgId : PeerMessageId) : Option (ChunkWriteLease × OutboundRingBuffer) :=
  if ring.lifecycle.canDrainChunks then
    (ring.chunks.leaseNextChunkForWrite callisId peerMsgId).map fun (lease, chunks) =>
      (lease, { ring with chunks := chunks })
  else none

def markChunkInflight (ring : OutboundRingBuffer) (lease : ChunkWriteLease) :
    OutboundRingBuffer :=
  { ring with chunks := (ring.chunks.markInflight lease).1 }

def markCallisReplayReady (ring : OutboundRingBuffer) (callisId : CallisId) :
    OutboundRingBuffer :=
  { ring with chunks := (ring.chunks.markCallisReplayReady callisId).1 }

def noteCompletion (ring : OutboundRingBuffer) (peerMsgId : PeerMessageId)
    (note : CompletionNote) : OutboundRingBuffer :=
  let chunks := (ring.chunks.noteCompletion peerMsgId note.chunkCompletion).1
  match note with
  | .ack => { ring with chunks := chunks }
  | .error error => ⟨ring.lifecycle.replaceFailure error, chunks⟩

def noteAck (ring : OutboundRingBuffer) (peerMsgId : PeerMessageId) : OutboundRingBuffer :=
  ring.noteCompletion peerMsgId .ack

def noteError (ring : OutboundRingBuffer) (peerMsgId : PeerMessageId) (error : AureliaError) :
    OutboundRingBuffer :=
  ring.noteCompletion peerMsgId (.error error)

def fail (ring : OutboundRingBuffer) (error : AureliaError) : OutboundRingBuffer :=
  { ring with lifecycle := ring.lifecycle.markFailed error }

def markComplete (ring : OutboundRingBuffer) : OutboundRingBuffer :=
  { ring with lifecycle := ring.lifecycle.markComplete }

def close (ring : OutboundRingBuffer) : OutboundRingBuffer :=
  { ring with lifecycle := ring.lifecycle.markClosed }

def checkComplete (ring : OutboundRingBuffer) : Option (Except AureliaError Unit) :=
  match ring.lifecycle.failure with
  | some error => some (.error error)
  | none =>
    if ring.lifecycle = .completed ∧ ring.chunks.isDrained then some (.ok ()) else none

def checkInflightDrain (ring : OutboundRingBuffer) : Option (Except AureliaError Unit) :=
  match ring.lifecycle.failure with
  | some error => some (.error error)
  | none => if ring.chunks.inflight = 0 then some (.ok ()) else none

def checkCapacity (ring : OutboundRingBuffer) : Option (Except AureliaError Unit) :=
  match ring.lifecycle.failure with
  | some error => some (.error error)
  | none =>
    if ring.lifecycle.isClosed then some (.error (.new .peerUnavailable))
    else if ring.chunks.canAcceptBytes then some (.ok ())
    else none

end OutboundRingBuffer

end AureliaPeering.Ring
