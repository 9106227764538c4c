import AureliaPeering.Lib.Machine
import AureliaPeering.Ring.Reassembly

/-!
The receiver side of one blob stream: the future of `poll_read`, the tasks that feed the stream,
and the tasks that fail it.

Each of them is suspended between two locks or atomic accesses.  End of stream is inferred from
three facts that change under different locks: the `completed` flag, the `error` cell, and whether
the manager still lists the stream.
-/

namespace AureliaPeering.Blob

open AureliaPeering.Ring

/-- What the reader shares with the tasks that feed or fail the stream. -/
structure BlobReceiverState where
  accepted : Bool
  completed : Bool
  error : Option AureliaError
deriving DecidableEq, Repr

/-- The request behind the stream: not accepted yet, listed among the pending requests, taken from
there by an activation that has not listed the stream yet, or neither any more. -/
inductive StreamRequest where
  | awaiting
  | pending
  | activating (size : RingSize)
  | gone
deriving DecidableEq

/-- The places in `try_receiver_read`.  The last two are those of a reader that found no ring. -/
inductive TryPhase where
  | checkError
  | lookup
  | take
  | loadCompleted
  | checkComplete
  | remove
  | noteComplete
  | recheckError
  | loadRemoved
deriving DecidableEq, Repr

/-- The places in the future of `start_read`.  The last three are those of `fail_receiver_idle`. -/
inductive ReadPhase where
  | start
  | awaitAccept
  | attempt (second : Bool) (phase : TryPhase)
  | awaitChange
  | recordIdle
  | completeIdle
  | removeIdle
deriving DecidableEq, Repr

/-- The other tasks: a chunk to insert, the flag to set once the ring is complete, a failure before
each of the two removals of `fail_inbound_stream`, and the two writes of `BlobReceiverState::fail`.
`held` tells whether the task has the receiver state even if it removes nothing. -/
inductive StreamTask where
  | inserting (chunk : Chunk)
  | completing
  | failing (held : Bool) (error : AureliaError)
  | removing (held : Bool) (error : AureliaError)
  | recording (error : AureliaError)
  | completingFailure
deriving DecidableEq, Repr

/-- `ring` is the ring once the stream has been activated, listed or not; `sent` are the chunks of
the frames that have arrived, `returned` the bytes the reader was given, and `zeroReads` what it had
been given at each report of zero bytes. -/
structure ReceiverRun where
  receiver : BlobReceiverState
  request : StreamRequest
  recvStream : Bool
  ring : Option InboundRingBuffer
  tasks : List StreamTask
  pending : Option ReadPhase
  current : Option Bytes
  offset : Nat
  sent : List Chunk
  returned : Bytes
  zeroReads : List Bytes

namespace ReceiverRun

def initial : ReceiverRun :=
  ⟨⟨false, false, none⟩, .awaiting, false, none, [], none, none, 0, [], [], []⟩

def spawn (run : ReceiverRun) (task : StreamTask) : ReceiverRun :=
  { run with tasks := run.tasks ++ [task] }

/-- `handle_blob_transfer_chunk` up to the first suspension after `recv_chunk_state`.  A stream that
is not listed is answered without touching it. -/
def handleChunk (run : ReceiverRun) (chunk : Chunk) (chunkSize : Nat) (expired : Bool) :
    ReceiverRun :=
  let arrived : ReceiverRun := { run with sent := run.sent ++ [chunk] }
  if chunkSize < chunk.data.length then arrived.spawn (.failing false (.new .protocolViolation))
  else if run.recvStream = false then arrived
  else if expired then
    { arrived with recvStream := false }.spawn (.failing true (.new .blobStreamIdleTimeout))
  else arrived.spawn (.inserting chunk)

/-- One turn of a task, and what is left of it. -/
def taskTurn (run : ReceiverRun) : StreamTask → ReceiverRun × Option StreamTask
  | .inserting chunk =>
    match run.ring with
    | none => (run, none)
    | some ring =>
      let inserted := ring.insertChunk chunk
      ({ run with ring := some inserted.1 },
        match inserted.2 with
        | .ok .duplicate => none
        | .ok (.stored complete _) => if complete then some .completing else none
        | .error error => some (.failing true error))
  | .completing => ({ run with receiver := { run.receiver with completed := true } }, none)
  | .failing held error =>
    if run.request = .pending then ({ run with request := .gone }, some (.recording error))
    else (run, some (.removing held error))
  | .removing held error =>
    if run.recvStream then ({ run with recvStream := false }, some (.recording error))
    else (run, if held then some (.recording error) else none)
  | .recording error =>
    ({ run with receiver := { run.receiver with error := some error } }, some .completingFailure)
  | .completingFailure => ({ run with receiver := { run.receiver with completed := true } }, none)

/-- The task at an index takes a turn, and leaves the list when it is done. -/
def turn (run : ReceiverRun) (index : Nat) : Option ReceiverRun :=
  (run.tasks[index]?).map fun task =>
    let turned := run.taskTurn task
    { turned.1 with tasks := Slots.replace run.tasks index turned.2 }

def goto (run : ReceiverRun) (phase : ReadPhase) : ReceiverRun := { run with pending := some phase }

def readFailed (run : ReceiverRun) : ReceiverRun := { run with pending := none }

def readEof (run : ReceiverRun) : ReceiverRun :=
  { run with pending := none, zeroReads := run.zeroReads ++ [run.returned] }

/-- `try_receiver_read` returns `None`: the first time it is tried again, then the reader waits. -/
def nothing (run : ReceiverRun) (second : Bool) : ReceiverRun :=
  run.goto (if second then .awaitChange else .attempt true .checkError)

def tryTurn (run : ReceiverRun) (second : Bool) : TryPhase → ReceiverRun
  | .checkError =>
    if run.receiver.error.isSome then run.readFailed else run.goto (.attempt second .lookup)
  | .lookup =>
    run.goto (.attempt second (if run.recvStream then .take else .recheckError))
  | .take =>
    match run.ring.bind InboundRingBuffer.takeNext with
    | some (data, next) =>
      { run with ring := some next, pending := none, current := some data, offset := 0 }
    | none => run.goto (.attempt second .loadCompleted)
  | .loadCompleted =>
    if run.receiver.completed then run.goto (.attempt second .checkComplete)
    else run.nothing second
  | .checkComplete =>
    if run.ring.any InboundRingBuffer.isComplete then run.goto (.attempt second .remove)
    else run.nothing second
  | .remove => { run with recvStream := false }.goto (.attempt second .noteComplete)
  | .noteComplete => run.readEof
  | .recheckError =>
    if run.receiver.error.isSome then run.readFailed else run.goto (.attempt second .loadRemoved)
  | .loadRemoved => if run.receiver.completed then run.readEof else run.nothing second

/-- One turn of the read future.  A wait ends with a wake-up or with its timeout. -/
def resume (run : ReceiverRun) (timedOut : Bool) : Option ReceiverRun :=
  run.pending.map fun
    | .start =>
      run.goto (if run.receiver.accepted then .attempt false .checkError else .awaitAccept)
    | .awaitAccept => run.goto (if timedOut then .recordIdle else .start)
    | .attempt second phase => run.tryTurn second phase
    | .awaitChange => run.goto (if timedOut then .recordIdle else .start)
    | .recordIdle =>
      { run with
        receiver := { run.receiver with error := some (.new .blobStreamIdleTimeout) }
      }.goto .completeIdle
    | .completeIdle =>
      { run with receiver := { run.receiver with completed := true } }.goto .removeIdle
    | .removeIdle => { run with recvStream := false }.readFailed

/-- `poll_read` with a buffer of the given capacity: it copies from the current chunk, or starts a
read if none is pending. -/
def pollRead (run : ReceiverRun) (capacity : Nat) : ReceiverRun :=
  match run.current with
  | some chunk =>
    let copied := (chunk.drop run.offset).take capacity
    let finished := chunk.length ≤ run.offset + copied.length
    { run with
      current := if finished then none else some chunk
      offset := if finished then 0 else run.offset + copied.length
      returned := run.returned ++ copied
      zeroReads :=
        if 0 < capacity ∧ copied = [] then run.zeroReads ++ [run.returned] else run.zeroReads }
  | none => if run.pending = none then run.goto .start else run

def clearPendingRequest (run : ReceiverRun) : ReceiverRun :=
  { run with request := if run.request = .pending then .gone else run.request }

inductive Label where
  | accept
  | addPendingRequest
  | takePendingRequest (size : Except AureliaError RingSize)
  | dropPendingRequest
  | insertRecvStream
  | failReceiver (error : AureliaError)
  | handleChunk (chunk : Chunk) (chunkSize : Nat) (expired : Bool)
  | handleError (error : AureliaError)
  | expire
  | failAllStreams (error : AureliaError)
  | turn (task : Nat)
  | pollRead (capacity : Nat)
  | resume (timedOut : Bool)

/-- An activation whose ring cannot be built fails the receiver.  `fail_all_streams` forgets a
pending request and fails a listed stream. -/
def step (run : ReceiverRun) (label : Label) : Option ReceiverRun :=
  match label with
  | .accept => some { run with receiver := { run.receiver with accepted := true } }
  | .addPendingRequest =>
    if run.request = .awaiting ∧ run.receiver.accepted then some { run with request := .pending }
    else none
  | .takePendingRequest size =>
    if run.request = .pending then
      match size with
      | .ok size => some { run with request := .activating size }
      | .error error => some ({ run with request := .gone }.spawn (.recording error))
    else none
  | .dropPendingRequest =>
    if run.request = .pending then some { run with request := .gone } else none
  | .insertRecvStream =>
    match run.request with
    | .activating size =>
      some { run with request := .gone, ring := some (.new size), recvStream := true }
    | _ => none
  | .failReceiver error => some (run.spawn (.recording error))
  | .handleChunk chunk chunkSize expired => some (run.handleChunk chunk chunkSize expired)
  | .handleError error => some (run.spawn (.failing false error))
  | .expire =>
    if run.recvStream then
      some ({ run with recvStream := false }.spawn (.recording (.new .blobStreamIdleTimeout)))
    else none
  | .failAllStreams error =>
    some (if run.recvStream then
        { run.clearPendingRequest with recvStream := false }.spawn (.recording error)
      else run.clearPendingRequest)
  | .turn task => run.turn task
  | .pollRead capacity => some (run.pollRead capacity)
  | .resume timedOut => run.resume timedOut

def system : Machine.System ReceiverRun Label := .ofStep (· = initial) step

end ReceiverRun

end AureliaPeering.Blob
