import AureliaPeering.Blob.ReceiverStream
import AureliaPeering.Blob.Responses
import AureliaPeering.Blob.SenderStream
import AureliaPeering.Lib.BigEndian

/-!
The transfer of one blob stream between two endpoints, over callis that can be lost.

The receiving endpoint handles every chunk frame to its end: it works on the stream, queues the
answer, and queues the completion frame if the chunk completed the stream.  Frames on the way are
listed with their callis, and a callis that is lost takes them along.
-/

namespace AureliaPeering.Blob

open AureliaPeering.Ring

inductive BlobChunkOutcome where
  | proceed
  | complete
deriving DecidableEq, Repr

/-- The places in the handling of a chunk frame: a task on the stream with the result known so far,
the answer to queue, and the completion frame to number and queue. -/
inductive ChunkPhase where
  | stream (task : StreamTask) (result : Except AureliaError BlobChunkOutcome)
  | answer (result : Except AureliaError BlobChunkOutcome)
  | notice

namespace ChunkPhase

/-- What follows a turn of a task that has left `rest`. -/
def after (result : Except AureliaError BlobChunkOutcome) (rest : Option StreamTask) : ChunkPhase :=
  match rest with
  | none => answer result
  | some .completing => stream .completing (.ok .complete)
  | some (.failing held error) => stream (.failing held error) (.error error)
  | some task => stream task result

def announces : ChunkPhase → Bool
  | stream .completing (.ok .complete) | answer (.ok .complete) | notice => true
  | _ => false

end ChunkPhase

structure ChunkHandler where
  peerMsgId : PeerMessageId
  phase : ChunkPhase

/-- The response of `respond_with_blob`.  The payload is the one of an ERROR frame. -/
def ChunkHandler.respond (handler : ChunkHandler) (payload : Bytes) :
    Except AureliaError BlobChunkOutcome → ResponseRun.Label
  | .ok _ => .handleChunk handler.peerMsgId
  | .error _ => .respond (.error handler.peerMsgId payload)

def BlobWriteLease.announces (streamId : PeerMessageId) : BlobWriteLease → Bool
  | finish completed _ _ => decide (completed = streamId)
  | ack _ | error _ _ | chunk _ _ _ => false

/-- A response frame on its way to the sending endpoint. -/
structure ResponseFrame where
  callisId : CallisId
  write : BlobWriteLease
deriving DecidableEq, Repr

def BlobSenderStream.Label.isLocal : BlobSenderStream.Label → Bool
  | handleAck _ | handleError _ _ | handleComplete => false
  | _ => true

/-- What the sending endpoint does with a response frame.  A completion frame reaches the stream
only while it is registered; `error` is what the payload of an ERROR frame decodes to. -/
def BlobSenderStream.handleResponse (streamId : PeerMessageId) (sender : BlobSenderStream)
    (error : AureliaError) : BlobWriteLease → BlobSenderStream
  | .ack peerMsgId => sender.onRing (.ack peerMsgId)
  | .error peerMsgId _ => sender.onRing (.error peerMsgId error)
  | .finish completed _ _ =>
    if completed = streamId ∧ sender.registered then sender.onRing .complete else sender
  | .chunk _ _ _ => sender

/-- `recent` tells whether the receiving endpoint remembers the stream as recently completed,
`aborted` whether it has failed all its streams. -/
structure TransferRun where
  sender : BlobSenderStream
  receiver : ReceiverRun
  recent : Bool
  handlers : List ChunkHandler
  responses : ResponseRun
  aborted : Bool
  chunks : List ChunkWriteLease
  frames : List ResponseFrame
  lost : List CallisId

namespace TransferRun

def initial (size : RingSize) (sendQueueSize : Nat) : TransferRun :=
  ⟨.new size, .initial, false, [], .initial sendQueueSize, false, [], [], []⟩

/-- `response` stands for the transmitters of the receiving endpoint and for its other traffic,
whose message ids are arbitrary.  The bytes of a response can arrive before its transmitter knows
that it is written, or although it reports a failure. -/
inductive Label where
  | sender (label : BlobSenderStream.Label)
  | writeChunk (lease : Nat)
  | deliverChunk (frame chunkSize : Nat) (expired : Bool)
  | turn (handler : Nat) (payload : Bytes)
  | notify (handler : Nat) (completeId : PeerMessageId)
  | receiver (label : ReceiverRun.Label)
  | forgetCompleted
  | response (label : ResponseRun.Label)
  | deliver (frame : Nat) (error : AureliaError)
  | deliverHeld (held : Nat) (error : AureliaError)
  | loseCallis (callisId : CallisId)

def handle (run : TransferRun) (peerMsgId : PeerMessageId) (phase : ChunkPhase) : TransferRun :=
  { run with handlers := run.handlers ++ [⟨peerMsgId, phase⟩] }

/-- `handle_blob_transfer_chunk` up to the first suspension after `recv_chunk_state`. -/
def handleChunk (run : TransferRun) (lease : ChunkWriteLease) (chunkSize : Nat) (expired : Bool) :
    TransferRun :=
  let arrived : TransferRun :=
    { run with receiver := { run.receiver with sent := run.receiver.sent ++ [lease.toChunk] } }
  let violation : AureliaError := .new .protocolViolation
  let timeout : AureliaError := .new .blobStreamIdleTimeout
  if chunkSize < lease.data.length then
    arrived.handle lease.peerMsgId (.stream (.failing false violation) (.error violation))
  else if run.receiver.recvStream = false then
    arrived.handle lease.peerMsgId
      (.answer (if run.recent then .ok .proceed else .error (.new .blobStreamNotFound)))
  else if expired then
    { arrived with receiver := { arrived.receiver with recvStream := false } }.handle
      lease.peerMsgId (.stream (.failing true timeout) (.error timeout))
  else arrived.handle lease.peerMsgId (.stream (.inserting lease.toChunk) (.ok .proceed))

/-- A handler takes a turn, and leaves the list after its last one. -/
def turn (run : TransferRun) (index : Nat) (handler : ChunkHandler) (payload : Bytes) :
    Option TransferRun :=
  match handler.phase with
  | .stream task result =>
    let turned := run.receiver.taskTurn task
    some { run with
      receiver := turned.1
      handlers := Slots.replace run.handlers index
        (some { handler with phase := .after result turned.2 }) }
  | .answer result =>
    (run.responses.step (handler.respond payload result)).map fun responses =>
      { run with
        responses := responses
        handlers := Slots.replace run.handlers index
          (match result with
          | .ok .complete => some { handler with phase := .notice }
          | _ => none) }
  | .notice => none

def notify (streamId : PeerMessageId) (run : TransferRun) (index : Nat)
    (completeId : PeerMessageId) : ChunkPhase → Option TransferRun
  | .notice =>
    (run.responses.step (.respond
      (.finish streamId completeId (BigEndian.bytes 4 streamId)))).map fun responses =>
        { run with responses := responses, handlers := Slots.replace run.handlers index none }
  | .stream _ _ | .answer _ => none

def remembers (run : TransferRun) : ReceiverRun.Label → Bool
  | .resume _ =>
    match run.receiver.pending with
    | some (.attempt _ .noteComplete) => true
    | _ => run.recent
  | .failAllStreams _ => false
  | _ => run.recent

def written (run : TransferRun) : ResponseRun.Label → List ResponseFrame
  | .finishWrite index true =>
    ((run.responses.held[index]?).toList.filter fun held => held.callisId ∉ run.lost).map
      fun held => ⟨held.callisId, held.write⟩
  | _ => []

def aborts : ResponseRun.Label → Bool
  | .failAllStreams => true
  | _ => false

def step (streamId : PeerMessageId) (run : TransferRun) (label : Label) : Option TransferRun :=
  match label with
  | .sender label =>
    if label.isLocal then (run.sender.step label).map fun sender => { run with sender := sender }
    else none
  | .writeChunk lease =>
    (run.sender.history.leases[lease]?).map fun lease =>
      if lease.callisId ∈ run.lost then run else { run with chunks := run.chunks ++ [lease] }
  | .deliverChunk frame chunkSize expired =>
    (run.chunks[frame]?).map fun lease =>
      { run with chunks := run.chunks.eraseIdx frame }.handleChunk lease chunkSize expired
  | .turn index payload =>
    (run.handlers[index]?).bind fun handler => run.turn index handler payload
  | .notify index completeId =>
    (run.handlers[index]?).bind fun handler =>
      run.notify streamId index completeId handler.phase
  | .receiver (.handleChunk _ _ _) => none
  | .receiver label =>
    (run.receiver.step label).map fun receiver =>
      { run with receiver := receiver, recent := run.remembers label }
  | .forgetCompleted => some { run with recent := false }
  | .response label =>
    (run.responses.step label).map fun responses =>
      { run with
        responses := responses
        aborted := run.aborted || aborts label
        frames := run.frames ++ run.written label }
  | .deliver index error =>
    (run.frames[index]?).map fun frame =>
      { run with
        sender := run.sender.handleResponse streamId error frame.write
        frames := run.frames.eraseIdx index }
  | .deliverHeld index error =>
    (run.responses.held[index]?).bind fun held =>
      if held.marked ∧ held.callisId ∉ run.lost then
        some { run with sender := run.sender.handleResponse streamId error held.write }
      else none
  | .loseCallis callisId =>
    some { run with
      chunks := run.chunks.filter fun lease => lease.callisId ≠ callisId
      frames := run.frames.filter fun frame => frame.callisId ≠ callisId
      lost := callisId :: run.lost }

def system (streamId : PeerMessageId) (size : RingSize) (sendQueueSize : Nat) :
    Machine.System TransferRun Label :=
  .ofStep (· = initial size sendQueueSize) (step streamId)

end TransferRun

end AureliaPeering.Blob
