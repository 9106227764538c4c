import AureliaPeering.Lib.Machine
import AureliaPeering.Ring.Tracking

/-!
The sender side of a blob stream: the futures of `poll_write`, `poll_flush` and `poll_shutdown`
over an outbound ring that other tasks work on at the same time.

A future is suspended wherever it waits for the ring's mutex, for a notification or for its
deadline.  `resume` is one turn of the pending future, from one such place to the next.
-/

namespace AureliaPeering.Blob

open AureliaPeering.Ring

/-- The places where a shutdown can be suspended. -/
inductive ShutdownPhase where
  | start
  | sealing
  | waitingCapacity
  | waitingComplete
deriving DecidableEq, Repr

inductive PendingOp where
  | capacity
  | flush
  | shutdown (phase : ShutdownPhase)
deriving DecidableEq, Repr

/-- `registered` tells whether the manager still lists the stream; `shutdowns` are the results of
the shutdown futures that have ended. -/
structure BlobSenderStream where
  history : OutboundHistory
  registered : Bool
  closed : Bool
  pending : Option PendingOp
  shutdowns : List (Except AureliaError Unit)

namespace BlobSenderStream

def new (size : RingSize) : BlobSenderStream := ⟨.new size, true, false, none, []⟩

/-- `poll_write` once no future is pending.  `Full` starts a capacity wait. -/
def pollWrite (stream : BlobSenderStream) (data : Bytes) : BlobSenderStream :=
  if data = [] ∨ stream.closed then stream
  else
    { stream with
      history := stream.history.apply (.push data)
      pending :=
        match (stream.history.ring.tryPushAvailable data).2 with
        | .ok .full => some .capacity
        | _ => none }

/-- A stream that is still listed is unlisted, and its ring closed. -/
def cleanup (stream : BlobSenderStream) : BlobSenderStream :=
  if stream.closed then stream
  else
    { stream with
      history := if stream.registered then stream.history.apply .close else stream.history
      registered := false
      closed := true }

def finishShutdown (stream : BlobSenderStream) (result : Except AureliaError Unit) :
    BlobSenderStream :=
  { stream with pending := none, shutdowns := stream.shutdowns ++ [result] }

/-- A wait under a deadline: the check comes first, and the deadline only counts if it fails. -/
def waitForDeadline (check : Option (Except AureliaError Unit)) (expired : Bool) :
    Option (Except AureliaError Unit) :=
  match check with
  | some result => some result
  | none => if expired then some (.error (.new .sendTimeout)) else none

/-- One turn of the shutdown future.  An error of `seal` returns without cleaning up. -/
def resumeShutdown (stream : BlobSenderStream) (expired : Bool) : ShutdownPhase → BlobSenderStream
  | .start =>
    if stream.closed then stream.finishShutdown (.ok ())
    else { stream with pending := some (.shutdown .sealing) }
  | .sealing =>
    let sealed := { stream with history := stream.history.apply .sealTurn }
    match stream.history.ring.sealTurn.2 with
    | .done (.ok ()) => { sealed with pending := some (.shutdown .waitingComplete) }
    | .done (.error error) => sealed.finishShutdown (.error error)
    | .waitForCapacity => { sealed with pending := some (.shutdown .waitingCapacity) }
  | .waitingCapacity =>
    match waitForDeadline stream.history.ring.checkCapacity expired with
    | some (.ok ()) => { stream with pending := some (.shutdown .sealing) }
    | some (.error error) => stream.finishShutdown (.error error)
    | none => stream
  | .waitingComplete =>
    match waitForDeadline stream.history.ring.checkComplete expired with
    | some result => stream.cleanup.finishShutdown result
    | none => stream

/-- The capacity and flush futures only wait. -/
def resume (stream : BlobSenderStream) (expired : Bool) : Option BlobSenderStream :=
  match stream.pending with
  | none => none
  | some .capacity =>
    if stream.closed || (waitForDeadline stream.history.ring.checkCapacity expired).isSome then
      some { stream with pending := none }
    else some stream
  | some .flush =>
    if stream.closed || (waitForDeadline stream.history.ring.checkInflightDrain expired).isSome
    then some { stream with pending := none }
    else some stream
  | some (.shutdown phase) => some (stream.resumeShutdown expired phase)

/-- What `poll_flush` returns if the pending future ends with this turn.  It may be that of a
shutdown. -/
def pollFlush (stream : BlobSenderStream) (expired : Bool) : Option (Except AureliaError Unit) :=
  match stream.pending with
  | some .flush =>
    if stream.closed then some (.ok ())
    else waitForDeadline stream.history.ring.checkInflightDrain expired
  | some (.shutdown phase) =>
    let next := stream.resumeShutdown expired phase
    if next.pending = none then next.shutdowns.getLast? else none
  | _ => none

/-- What other tasks do to the ring: a transmitter leases and marks chunks and loses its callis,
the peer's frames acknowledge or fail a chunk or complete the stream, and the manager fails the
stream.  The manager closes a ring only after it has failed it, which changes nothing. -/
inductive Label where
  | pollWrite (data : Bytes)
  | pollFlush
  | pollShutdown
  | resume (expired : Bool)
  | lease (callisId : CallisId) (peerMsgId : PeerMessageId)
  | markInflight (lease : ChunkWriteLease)
  | loseCallis (callisId : CallisId)
  | handleAck (peerMsgId : PeerMessageId)
  | handleError (peerMsgId : PeerMessageId) (error : AureliaError)
  | handleComplete
  | fail (error : AureliaError)
  | unlist
deriving DecidableEq, Repr

def onRing (stream : BlobSenderStream) (op : RingOp) : BlobSenderStream :=
  { stream with history := stream.history.apply op }

def Label.ringOp : Label → Option RingOp
  | lease callisId peerMsgId => some (.lease callisId peerMsgId)
  | markInflight held => some (.markInflight held)
  | loseCallis callisId => some (.loseCallis callisId)
  | handleAck peerMsgId => some (.ack peerMsgId)
  | handleError peerMsgId error => some (.error peerMsgId error)
  | handleComplete => some .complete
  | fail error => some (.fail error)
  | pollWrite _ | pollFlush | pollShutdown | resume _ | unlist => none

def step (stream : BlobSenderStream) (label : Label) : Option BlobSenderStream :=
  match label with
  | .pollWrite data => if stream.pending = none then some (stream.pollWrite data) else none
  | .pollFlush =>
    if stream.pending = none then some { stream with pending := some .flush } else none
  | .pollShutdown =>
    if stream.pending = none then some { stream with pending := some (.shutdown .start) } else none
  | .resume expired => stream.resume expired
  | .unlist => some { stream with registered := false }
  | other => other.ringOp.map stream.onRing

def system (size : RingSize) : Machine.System BlobSenderStream Label :=
  .ofStep (· = new size) step

end BlobSenderStream

end AureliaPeering.Blob
