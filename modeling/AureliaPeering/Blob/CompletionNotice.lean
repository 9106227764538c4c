import AureliaPeering.Blob.Completion
import AureliaPeering.Blob.QueuedWrite

/-!
The completion frame of a blob stream, from the chunk that completes the ring until the sending
endpoint has handled it.

A chunk is replayed until it is acknowledged, but a completion frame is queued once and forgotten
as soon as it is written locally.  A duplicate of the last chunk is only acknowledged.
-/

namespace AureliaPeering.Blob

open Collections AureliaPeering.Ring ReceiverRun List Option

namespace BlobSenderStream

variable {stream next : BlobSenderStream}

def Waiting (stream : BlobSenderStream) : Prop :=
  stream.registered = true ∧ ¬stream.history.ring.lifecycle.Ended

instance (lifecycle : OutboundLifecycle) : Decidable lifecycle.Ended :=
  match lifecycle with
  | .opened | .sealing | .awaitingComplete => inferInstanceAs (Decidable False)
  | .completed | .failed _ | .closed => inferInstanceAs (Decidable True)

instance (stream : BlobSenderStream) : Decidable stream.Waiting :=
  inferInstanceAs (Decidable (_ ∧ _))

/-- A step works on the ring at most once, and never lists the stream again. -/
structure Follows (stream next : BlobSenderStream) : Prop where
  registered : next.registered = true → stream.registered = true
  history : next.history = stream.history ∨ ∃ op, next.history = stream.history.apply op

theorem Follows.waiting (follows : stream.Follows next) (waiting : next.Waiting) :
    stream.Waiting := by
  refine ⟨follows.registered waiting.1, fun ended => waiting.2 ?_⟩
  rcases follows.history with same | ⟨op, applied⟩
  · rwa [same]
  · rw [applied]
    exact OutboundHistory.ended_apply op ended

theorem follows_onRing (stream : BlobSenderStream) (op : RingOp) :
    stream.Follows (stream.onRing op) :=
  ⟨id, .inr ⟨op, rfl⟩⟩

theorem follows_cleanup (stream : BlobSenderStream) (result : Except AureliaError Unit) :
    stream.Follows (stream.cleanup.finishShutdown result) := by
  unfold cleanup
  split
  · exact ⟨id, .inl rfl⟩
  · refine ⟨nofun, ?_⟩
    change (if stream.registered then stream.history.apply .close else stream.history) = _ ∨ _
    split
    · exact .inr ⟨.close, rfl⟩
    · exact .inl rfl

theorem follows_resumeShutdown (stream : BlobSenderStream) (expired : Bool)
    (phase : ShutdownPhase) : stream.Follows (stream.resumeShutdown expired phase) := by
  cases phase with
  | start | waitingCapacity =>
    simp only [resumeShutdown]
    split <;> exact ⟨id, .inl rfl⟩
  | sealing =>
    simp only [resumeShutdown]
    split <;> exact ⟨id, .inr ⟨.sealTurn, rfl⟩⟩
  | waitingComplete =>
    simp only [resumeShutdown]
    split
    · exact follows_cleanup stream _
    · exact ⟨id, .inl rfl⟩

theorem follows_step {label : Label} (stepped : stream.step label = some next) :
    stream.Follows next := by
  have works (op : RingOp) (applied : some (stream.onRing op) = some next) :
      stream.Follows next := by
    cases applied
    exact follows_onRing stream op
  cases label with
  | pollWrite data =>
    obtain ⟨_, ⟨⟩⟩ := ite_none_right_eq_some.mp stepped
    unfold pollWrite
    split
    · exact ⟨id, .inl rfl⟩
    · exact ⟨id, .inr ⟨.push data, rfl⟩⟩
  | pollFlush | pollShutdown =>
    obtain ⟨_, ⟨⟩⟩ := ite_none_right_eq_some.mp stepped
    exact ⟨id, .inl rfl⟩
  | resume expired =>
    simp only [step, resume] at stepped
    split at stepped
    · cases stepped
    · split at stepped <;> cases stepped <;> exact ⟨id, .inl rfl⟩
    · split at stepped <;> cases stepped <;> exact ⟨id, .inl rfl⟩
    · cases stepped
      exact follows_resumeShutdown stream expired _
  | unlist =>
    cases stepped
    exact ⟨nofun, .inl rfl⟩
  | lease callisId peerMsgId | markInflight held | loseCallis callisId | handleAck peerMsgId
  | handleError peerMsgId error | handleComplete | fail error => exact works _ stepped

variable {streamId : PeerMessageId} {error : AureliaError}

theorem follows_handleResponse (write : BlobWriteLease) :
    stream.Follows (stream.handleResponse streamId error write) := by
  cases write with
  | ack peerMsgId | error peerMsgId payload => exact follows_onRing stream _
  | chunk streamId peerMsgId chunk => exact ⟨id, .inl rfl⟩
  | finish completed peerMsgId payload =>
    unfold handleResponse
    dsimp only
    split
    · exact follows_onRing stream _
    · exact ⟨id, .inl rfl⟩

theorem not_waiting_of_announces {write : BlobWriteLease}
    (notice : write.announces streamId = true) :
    ¬(stream.handleResponse streamId error write).Waiting := by
  cases write with
  | ack peerMsgId | error peerMsgId payload | chunk streamId peerMsgId chunk => cases notice
  | finish completed peerMsgId payload =>
    have same : completed = streamId := of_decide_eq_true notice
    unfold handleResponse
    dsimp only
    split
    · exact fun waiting => waiting.2 (OutboundLifecycle.markComplete_ended _)
    · rename_i unlisted
      exact fun waiting => unlisted ⟨same, waiting.1⟩

end BlobSenderStream

namespace ReceiverRun

variable {run next : ReceiverRun}

/-- What the reader and the failures do to the ring: nothing, its creation, or a chunk taken. -/
inductive RingMove : Option InboundRingBuffer → Option InboundRingBuffer → Prop where
  | same (ring : Option InboundRingBuffer) : RingMove ring ring
  | created (ring : Option InboundRingBuffer) (size : RingSize) : RingMove ring (some (.new size))
  | taken {ring rest : InboundRingBuffer} {data : Bytes}
      (took : ring.takeNext = some (data, rest)) :
      RingMove (some ring) (some rest)

def feeds : StreamTask → Bool
  | .inserting _ => true
  | _ => false

structure Quiet (run next : ReceiverRun) : Prop where
  ring : RingMove run.ring next.ring
  tasks : ∀ task ∈ next.tasks, task ∈ run.tasks ∨ feeds task = false

variable {task : StreamTask} {rest ring : Option InboundRingBuffer}

theorem quiet_spawn (ring : next.ring = run.ring)
    (tasks : next.tasks = run.tasks ++ [task]) (idle : feeds task = false) : run.Quiet next := by
  refine ⟨ring ▸ .same _, fun other listed => ?_⟩
  rcases mem_append.mp (tasks ▸ listed) with old | new
  · exact .inl old
  · obtain rfl := mem_singleton.mp new
    exact .inr idle

theorem ring_taskTurn (idle : feeds task = false) :
    (run.taskTurn task).1.ring = run.ring := by
  cases task with
  | inserting chunk => cases idle
  | completing => rfl
  | failing held error | removing held error => simp only [taskTurn]; split <;> rfl
  | recording error => rfl
  | completingFailure => rfl

theorem feeds_taskTurn {rest : StreamTask} (left : (run.taskTurn task).2 = some rest) :
    feeds rest = false := by
  cases task with
  | inserting chunk =>
    simp only [taskTurn] at left
    split at left
    · cases left
    · split at left
      · cases left
      · split at left <;> cases left
        rfl
      · cases left
        rfl
  | completing | completingFailure => cases left
  | failing held error => simp only [taskTurn] at left; split at left <;> cases left <;> rfl
  | removing held error =>
    simp only [taskTurn] at left
    split at left
    · cases left
      rfl
    · cases held <;> cases left
      rfl
  | recording error => cases left; rfl

theorem tasks_taskTurn (task : StreamTask) : (run.taskTurn task).1.tasks = run.tasks := by
  cases task with
  | inserting chunk | failing held error | removing held error =>
    simp only [taskTurn]; split <;> rfl
  | completing => rfl
  | recording error => rfl
  | completingFailure => rfl

theorem quiet_tryTurn (second : Bool) (phase : TryPhase) :
    run.Quiet (run.tryTurn second phase) := by
  cases phase with
  | take =>
    simp only [tryTurn]
    split
    · rename_i data rest took
      obtain ⟨_, isRing, taken⟩ := bind_eq_some_iff.mp took
      refine ⟨?_, fun _ => .inl⟩
      rw [isRing]
      exact .taken taken
    · exact ⟨.same _, fun _ => .inl⟩
  | checkError | loadCompleted | checkComplete | recheckError | loadRemoved =>
    simp only [tryTurn]; split <;> exact ⟨.same _, fun _ => .inl⟩
  | lookup | remove | noteComplete => exact ⟨.same _, fun _ => .inl⟩

theorem quiet_resume {timedOut : Bool} (resumed : run.resume timedOut = some next) :
    run.Quiet next := by
  obtain ⟨phase, _, rfl⟩ := map_eq_some_iff.mp resumed
  cases phase with
  | attempt second phase => exact quiet_tryTurn second phase
  | start | awaitAccept | awaitChange | recordIdle | completeIdle | removeIdle =>
    exact ⟨.same _, fun _ => .inl⟩

theorem quiet_turn (idle : ∀ task ∈ run.tasks, feeds task = false) {index : Nat}
    (turned : run.turn index = some next) : run.Quiet next := by
  obtain ⟨task, listed, rfl⟩ := map_eq_some_iff.mp turned
  have isIdle := idle task (mem_of_getElem? listed)
  refine ⟨?_, fun other found => ?_⟩
  · rw [show _ = run.ring from ring_taskTurn isIdle]
    exact .same _
  · rcases Slots.mem_of_mem_replace found with old | left
    · exact .inl old
    · exact .inr (feeds_taskTurn left)

theorem quiet_step {label : Label} (idle : ∀ task ∈ run.tasks, feeds task = false)
    (other : ∀ chunk chunkSize expired, label ≠ .handleChunk chunk chunkSize expired)
    (stepped : run.step label = some next) : run.Quiet next := by
  cases label with
  | accept =>
    cases stepped
    exact ⟨.same _, fun _ => .inl⟩
  | addPendingRequest | dropPendingRequest =>
    obtain ⟨_, ⟨⟩⟩ := ite_none_right_eq_some.mp stepped
    exact ⟨.same _, fun _ => .inl⟩
  | takePendingRequest size =>
    obtain ⟨_, taken⟩ := ite_none_right_eq_some.mp stepped
    cases size with
    | ok size =>
      cases taken
      exact ⟨.same _, fun _ => .inl⟩
    | error error =>
      cases taken
      exact quiet_spawn rfl rfl rfl
  | insertRecvStream =>
    simp only [step] at stepped
    split at stepped
    · cases stepped
      exact ⟨.created _ _, fun _ => .inl⟩
    · cases stepped
  | failReceiver error | handleError error =>
    cases stepped
    exact quiet_spawn rfl rfl rfl
  | handleChunk chunk chunkSize expired => exact absurd rfl (other chunk chunkSize expired)
  | expire =>
    obtain ⟨_, ⟨⟩⟩ := ite_none_right_eq_some.mp stepped
    exact quiet_spawn rfl rfl rfl
  | failAllStreams error =>
    cases stepped
    dsimp only
    split
    · exact quiet_spawn rfl rfl rfl
    · exact ⟨.same _, fun _ => .inl⟩
  | turn task => exact quiet_turn idle stepped
  | pollRead capacity =>
    cases stepped
    unfold pollRead
    split
    · exact ⟨.same _, fun _ => .inl⟩
    · split <;> exact ⟨.same _, fun _ => .inl⟩
  | resume timedOut => exact quiet_resume stepped

theorem Quiet.idle (quiet : run.Quiet next) (idle : ∀ task ∈ run.tasks, feeds task = false) :
    ∀ task ∈ next.tasks, feeds task = false := by
  intro task listed
  rcases quiet.tasks task listed with old | new
  · exact idle task old
  · exact new

theorem RingMove.steady (move : RingMove ring rest)
    (steady : ∀ buffer ∈ ring, buffer.Steady) : ∀ buffer ∈ rest, buffer.Steady := by
  cases move with
  | same => exact steady
  | created size =>
    rintro _ ⟨⟩
    exact .start _
  | taken took =>
    rintro _ ⟨⟩
    exact ((steady _ rfl).takeNext took).1

theorem RingMove.complete (move : RingMove ring rest)
    (steady : ∀ buffer ∈ ring, buffer.Steady)
    (holds : rest.any InboundRingBuffer.holdsAll = true) :
    ring.any InboundRingBuffer.holdsAll = true := by
  cases move with
  | same => exact holds
  | created size => cases holds
  | taken took => exact ((steady _ rfl).takeNext took).2.symm.trans holds

end ReceiverRun

namespace TransferRun

open BlobOutboundState

/-- A completion frame for the stream is still to be queued by a handler, or queued, or being
written, or on its way. -/
inductive Announced (streamId : PeerMessageId) (run : TransferRun) : Prop where
  | pending {handler : ChunkHandler} (listed : handler ∈ run.handlers)
      (notice : handler.phase.announces = true)
  | queued {id : PeerMessageId} {slot : BlobWriteSlot}
      (ready : id ∈ run.responses.outbound.completeReady)
      (stored : run.responses.outbound.writeSlots.lookup id = some slot)
      (leasable : slot.state.leasable = true) (notice : slot.write.announces streamId = true)
  | writing {held : HeldWrite} (listed : held ∈ run.responses.held)
      (notice : held.write.announces streamId = true)
  | travelling {frame : ResponseFrame} (listed : frame ∈ run.frames)
      (notice : frame.write.announces streamId = true)

/-- The sealed ring of the sender is drained and waits for the completion frame, the receiver has
the whole stream and neither side has failed it, but no completion frame will come. -/
structure CompletionLost (streamId : PeerMessageId) (run : TransferRun) : Prop where
  registered : run.sender.registered = true
  awaiting : run.sender.history.ring.lifecycle = .awaitingComplete
  drained : run.sender.history.ring.chunks.isDrained = true
  complete : run.receiver.ring.any InboundRingBuffer.holdsAll = true
  known : run.receiver.recvStream = true ∨ run.recent = true
  unfailed : run.receiver.receiver.error = none
  alive : run.aborted = false
  silent : ¬run.Announced streamId

/-- While the sender waits, the transmitters do not report a completion frame as written to a lost
callis, and its number is not the one of a local frame that is leased, acknowledged or failed, nor
its stream's number the one of a local stream that ends. -/
def Keeps (streamId : PeerMessageId) (run : TransferRun) : ResponseRun.Label → Prop
  | .finishWrite index true =>
    ∀ held ∈ run.responses.held[index]?, held.write.announces streamId = true →
      held.callisId ∉ run.lost
  | .leaseChunk _ _ peerMsgId _ | .handleAck peerMsgId | .handleError peerMsgId =>
    ∀ write ∈ run.responses.outbound.writeAt peerMsgId, write.announces streamId = false
  | .removeStream removed => removed ≠ streamId
  | _ => True

/-- While the sender waits, no callis is lost with a completion frame on the way, and a completion
frame is queued under a free number into a lane with room. -/
def Retained (streamId : PeerMessageId) (run : TransferRun) (label : Label) : Prop :=
  run.sender.Waiting →
    match label with
    | .loseCallis callisId =>
      ∀ frame ∈ run.frames, frame.callisId = callisId → frame.write.announces streamId = false
    | .notify _ completeId =>
      run.responses.outbound.writeSlots.lookup completeId = none ∧
        run.responses.outbound.laneFull .complete = false ∧
        ∀ write ∈ run.responses.writes, write.peerMsgId ≠ completeId
    | .response label => run.Keeps streamId label
    | _ => True

instance (streamId : PeerMessageId) (run : TransferRun) (label : ResponseRun.Label) :
    Decidable (run.Keeps streamId label) :=
  match label with
  | .finishWrite _ true | .leaseChunk .. | .handleAck _ | .handleError _ | .removeStream _ => by
      unfold Keeps
      infer_instance
  | .finishWrite _ false | .handleChunk _ | .respond _ | .leaseResponse _ | .markDispatch _
  | .requeueCallis .. | .requeueAll _ | .failAllStreams => instDecidableTrue

instance (streamId : PeerMessageId) (run : TransferRun) (label : Label) :
    Decidable (run.Retained streamId label) := by
  unfold Retained
  refine @instDecidableForall _ _ _ ?_
  split <;> infer_instance

/-- Where the completion frame is while the sender waits for it. -/
inductive Coming (streamId : PeerMessageId) (handlers : List ChunkHandler)
    (responses : ResponseRun) (frames : List ResponseFrame) : Prop where
  | pending {handler : ChunkHandler} (listed : handler ∈ handlers)
      (notice : handler.phase.announces = true)
  | queued {write : BlobWriteLease} (notice : write.announces streamId = true)
      (queued : responses.outbound.Queued responses.writes .complete write)
  | travelling {frame : ResponseFrame} (listed : frame ∈ frames)
      (notice : frame.write.announces streamId = true)

section Coming

variable {streamId : PeerMessageId} {handlers : List ChunkHandler} {responses next : ResponseRun}
  {frames : List ResponseFrame}
variable (coming : Coming streamId handlers responses frames)

include coming

theorem Coming.handle (added : ChunkHandler) :
    Coming streamId (handlers ++ [added]) responses frames := by
  cases coming with
  | pending listed notice => exact .pending (mem_append_left _ listed) notice
  | queued notice queued => exact .queued notice queued
  | travelling listed notice => exact .travelling listed notice

/-- A handler that has still to queue the frame is left with that after its turn. -/
theorem Coming.replace {index : Nat} {handler : ChunkHandler} {left : Option ChunkHandler}
    (found : handlers[index]? = some handler)
    (kept : handler.phase.announces = true → ∃ rest, left = some rest ∧
      rest.phase.announces = true) :
    Coming streamId (Slots.replace handlers index left) responses frames := by
  cases coming with
  | @pending other listed notice =>
    by_cases same : handler.phase.announces = true
    · obtain ⟨rest, rfl, stillDue⟩ := kept same
      exact .pending (Slots.mem_replace_self found) stillDue
    · refine .pending (Slots.mem_replace_of_ne found listed ?_ left) notice
      rintro rfl
      exact same notice
  | queued notice queued => exact .queued notice queued
  | travelling listed notice => exact .travelling listed notice

theorem Coming.respond (numbered : responses.outbound.Numbered) {label : ResponseRun.Label}
    (stepped : responses.step label = some next) (spares : ∀ write, responses.Spares write label) :
    Coming streamId handlers next frames := by
  cases coming with
  | pending listed notice => exact .pending listed notice
  | queued notice queued =>
    exact .queued notice (ResponseRun.queued_step queued numbered stepped (spares _))
  | travelling listed notice => exact .travelling listed notice

end Coming

structure Inv (streamId : PeerMessageId) (run : TransferRun) : Prop where
  steady : ∀ ring ∈ run.receiver.ring, ring.Steady
  idle : ∀ task ∈ run.receiver.tasks, ReceiverRun.feeds task = false
  numbered : run.responses.outbound.Numbered
  told : run.aborted = false → run.sender.Waiting →
    run.receiver.ring.any InboundRingBuffer.holdsAll = true →
    Coming streamId run.handlers run.responses run.frames

section Inv

variable {streamId : PeerMessageId} {run next : TransferRun}
variable {task : StreamTask} {receiver : ReceiverRun} {index : Nat} {label : ResponseRun.Label}

theorem inv_initial (streamId : PeerMessageId) (size : RingSize) (sendQueueSize : Nat) :
    (initial size sendQueueSize).Inv streamId := by
  refine ⟨nofun, nofun, fun id write found => ?_, nofun⟩
  simp [initial, ResponseRun.initial, BlobOutboundState.new, writeAt] at found

theorem Inv.handle (inv : run.Inv streamId) (peerMsgId : PeerMessageId) (phase : ChunkPhase) :
    (run.handle peerMsgId phase).Inv streamId :=
  ⟨inv.steady, inv.idle, inv.numbered,
    fun alive waiting holds => (inv.told alive waiting holds).handle _⟩

theorem Inv.handleChunk (inv : run.Inv streamId) (lease : ChunkWriteLease) (chunkSize : Nat)
    (expired : Bool) : (run.handleChunk lease chunkSize expired).Inv streamId := by
  have arrived : Inv streamId { run with
      receiver := { run.receiver with sent := run.receiver.sent ++ [lease.toChunk] } } :=
    ⟨inv.steady, inv.idle, inv.numbered, inv.told⟩
  unfold TransferRun.handleChunk
  dsimp only
  split_ifs
  · exact arrived.handle _ _
  · exact arrived.handle _ _
  · exact arrived.handle _ _
  · refine Inv.handle ?_ _ _
    exact ⟨inv.steady, inv.idle, inv.numbered, inv.told⟩
  · exact arrived.handle _ _

theorem announces_after {result : Except AureliaError BlobChunkOutcome}
    (notice : (ChunkPhase.stream task result).announces = true) :
    (ChunkPhase.after result (receiver.taskTurn task).2).announces = true := by
  unfold ChunkPhase.announces at notice
  split at notice
  · rename_i isPhase
    cases isPhase
    rfl
  · rename_i isPhase
    cases isPhase
  · rename_i isPhase
    cases isPhase
  · cases notice

theorem complete_taskTurn (result : Except AureliaError BlobChunkOutcome)
    (steady : ∀ ring ∈ receiver.ring, ring.Steady)
    (holds : (receiver.taskTurn task).1.ring.any InboundRingBuffer.holdsAll = true) :
    receiver.ring.any InboundRingBuffer.holdsAll = true ∨
      (ChunkPhase.after result (receiver.taskTurn task).2).announces = true := by
  cases task with
  | inserting chunk =>
    cases isRing : receiver.ring with
    | none => simp [taskTurn, isRing] at holds
    | some ring =>
      simp only [taskTurn, isRing] at holds ⊢
      refine (InboundRingBuffer.Steady.completing (steady ring isRing) holds).imp_right ?_
      rintro ⟨_, completed⟩
      rw [completed]
      rfl
  | _ =>
    rw [ring_taskTurn rfl] at holds
    exact .inl holds

theorem steady_taskTurn (steady : ∀ ring ∈ receiver.ring, ring.Steady) :
    ∀ ring ∈ (receiver.taskTurn task).1.ring, ring.Steady := by
  cases task with
  | inserting chunk =>
    cases isRing : receiver.ring with
    | none => simp [taskTurn, isRing]
    | some ring =>
      simp only [taskTurn, isRing]
      rintro _ ⟨⟩
      exact (steady ring isRing).insertChunk chunk
  | _ =>
    rw [ring_taskTurn rfl]
    exact steady

theorem Inv.turn (inv : run.Inv streamId) {handler : ChunkHandler} {payload : Bytes}
    (found : run.handlers[index]? = some handler)
    (turned : run.turn index handler payload = some next) : next.Inv streamId := by
  unfold TransferRun.turn at turned
  cases isPhase : handler.phase with
  | stream task result =>
    rw [isPhase] at turned
    cases turned
    refine ⟨steady_taskTurn inv.steady, ?_, inv.numbered, fun alive waiting holds => ?_⟩
    · rw [tasks_taskTurn]
      exact inv.idle
    · rcases complete_taskTurn result inv.steady holds with before | completed
      · refine (inv.told alive waiting before).replace found fun notice => ⟨_, rfl, ?_⟩
        rw [isPhase] at notice
        exact announces_after notice
      · exact .pending (Slots.mem_replace_self found) completed
  | answer result =>
    rw [isPhase] at turned
    obtain ⟨_, stepped, rfl⟩ := map_eq_some_iff.mp turned
    refine ⟨inv.steady, inv.idle, ResponseRun.numbered_step inv.numbered stepped, ?_⟩
    intro alive waiting holds
    have coming := inv.told alive waiting holds
    refine (coming.respond inv.numbered stepped ?_).replace found fun notice => ?_
    · cases result <;> exact fun _ => trivial
    · rw [isPhase] at notice
      rcases result with _ | outcome
      · cases notice
      · cases outcome with
        | proceed => cases notice
        | complete => exact ⟨_, rfl, rfl⟩
  | notice =>
    rw [isPhase] at turned
    cases turned

theorem Inv.notify (inv : run.Inv streamId) {completeId : PeerMessageId}
    {phase : ChunkPhase} (notified : run.notify streamId index completeId phase = some next)
    (retained : run.Retained streamId (.notify index completeId)) : next.Inv streamId := by
  cases phase with
  | stream task result | answer result => cases notified
  | notice =>
    cases notified
    refine ⟨inv.steady, inv.idle, ?_, fun alive waiting _ => ?_⟩
    · exact @ResponseRun.numbered_step run.responses _ (.respond _) inv.numbered rfl
    obtain ⟨free, room, unheld⟩ := retained waiting
    exact @Coming.queued _ _ _ _ (.finish streamId completeId (BigEndian.bytes 4 streamId))
      (decide_eq_true rfl) (queued_enqueue rfl free room
        fun other isHeld same => absurd same (unheld other isHeld))

theorem Inv.setReceiver (inv : run.Inv streamId) (recent : Bool)
    (quiet : run.receiver.Quiet receiver) :
    Inv streamId { run with receiver := receiver, recent := recent } :=
  ⟨quiet.ring.steady inv.steady, quiet.idle inv.idle, inv.numbered,
    fun alive waiting holds => inv.told alive waiting (quiet.ring.complete inv.steady holds)⟩

theorem spares_or_written {write : BlobWriteLease}
    (notice : write.announces streamId = true) (keeps : run.Keeps streamId label)
    (alive : aborts label = false)
    (queued : run.responses.outbound.Queued run.responses.writes .complete write) :
    run.responses.Spares write label ∨
      ∃ frame ∈ run.written label, frame.write.announces streamId = true := by
  have elsewhere (peerMsgId : PeerMessageId) (kept : ∀ stored ∈
      run.responses.outbound.writeAt peerMsgId, stored.announces streamId = false) :
      peerMsgId ≠ write.peerMsgId := by
    rintro rfl
    have silent := kept write queued.writeAt_eq
    cases notice.symm.trans silent
  cases label with
  | leaseChunk callisId chunkStream peerMsgId chunk | handleAck peerMsgId
  | handleError peerMsgId => exact .inl (elsewhere peerMsgId keeps)
  | finishWrite index written =>
    cases written with
    | false => exact .inl trivial
    | true =>
      by_cases own : ∃ held, run.responses.held[index]? = some held ∧ held.write = write
      · obtain ⟨held, isHeld, rfl⟩ := own
        have carried := keeps held isHeld notice
        exact .inr ⟨⟨held.callisId, held.write⟩, by simp [written, isHeld, carried], notice⟩
      · exact .inl fun held isHeld same => own ⟨held, isHeld, same⟩
  | removeStream removed =>
    refine .inl fun same => keeps ?_
    cases write with
    | finish completed peerMsgId payload =>
      exact (some.inj same).symm.trans (of_decide_eq_true notice)
    | ack peerMsgId => cases notice
    | error peerMsgId payload => cases notice
    | chunk chunkStream peerMsgId chunk => cases notice
  | failAllStreams => cases alive
  | handleChunk | respond | leaseResponse | markDispatch | requeueCallis | requeueAll =>
    exact .inl trivial

theorem Inv.response (inv : run.Inv streamId) {responses : ResponseRun}
    (stepped : run.responses.step label = some responses)
    (retained : run.Retained streamId (.response label)) :
    Inv streamId { run with
      responses := responses
      aborted := run.aborted || aborts label
      frames := run.frames ++ run.written label } := by
  refine ⟨inv.steady, inv.idle, ResponseRun.numbered_step inv.numbered stepped, ?_⟩
  intro alive waiting holds
  obtain ⟨wasAlive, stays⟩ := Bool.or_eq_false_iff.mp alive
  cases inv.told wasAlive waiting holds with
  | pending listed notice => exact .pending listed notice
  | queued notice queued =>
    rcases spares_or_written notice (retained waiting) stays queued with
      spares | ⟨frame, isWritten, announced⟩
    · exact .queued notice (ResponseRun.queued_step queued inv.numbered stepped spares)
    · exact .travelling (mem_append_right _ isWritten) announced
  | travelling listed notice => exact .travelling (mem_append_left _ listed) notice

theorem Inv.deliver (inv : run.Inv streamId) {frame : ResponseFrame}
    (found : run.frames[index]? = some frame) (error : AureliaError) :
    Inv streamId { run with
      sender := run.sender.handleResponse streamId error frame.write
      frames := run.frames.eraseIdx index } := by
  refine ⟨inv.steady, inv.idle, inv.numbered, fun alive waiting holds => ?_⟩
  have before := (BlobSenderStream.follows_handleResponse frame.write).waiting waiting
  cases inv.told alive before holds with
  | pending listed notice => exact .pending listed notice
  | queued notice queued => exact .queued notice queued
  | travelling listed notice =>
    refine .travelling (Slots.mem_replace_of_ne found listed ?_ none) notice
    rintro rfl
    exact BlobSenderStream.not_waiting_of_announces notice waiting

theorem Inv.loseCallis (inv : run.Inv streamId) {callisId : CallisId}
    (retained : run.Retained streamId (.loseCallis callisId)) :
    Inv streamId { run with
      chunks := run.chunks.filter fun lease => lease.callisId ≠ callisId
      frames := run.frames.filter fun frame => frame.callisId ≠ callisId
      lost := callisId :: run.lost } := by
  refine ⟨inv.steady, inv.idle, inv.numbered, fun alive waiting holds => ?_⟩
  cases inv.told alive waiting holds with
  | pending listed notice => exact .pending listed notice
  | queued notice queued => exact .queued notice queued
  | @travelling frame listed notice =>
    refine .travelling (mem_filter.mpr ⟨listed, ?_⟩) notice
    refine decide_eq_true fun same => ?_
    cases (retained waiting frame listed same).symm.trans notice

theorem Inv.step {label : Label} (inv : run.Inv streamId)
    (stepped : run.step streamId label = some next) (retained : run.Retained streamId label) :
    next.Inv streamId := by
  have sends {sender : BlobSenderStream} (follows : run.sender.Follows sender) :
      Inv streamId { run with sender := sender } :=
    ⟨inv.steady, inv.idle, inv.numbered,
      fun alive waiting holds => inv.told alive (follows.waiting waiting) holds⟩
  cases label with
  | sender label =>
    obtain ⟨_, taken⟩ := ite_none_right_eq_some.mp stepped
    obtain ⟨sender, moved, rfl⟩ := map_eq_some_iff.mp taken
    exact sends (BlobSenderStream.follows_step moved)
  | writeChunk lease =>
    obtain ⟨lease, _, rfl⟩ := map_eq_some_iff.mp stepped
    split
    · exact inv
    · exact ⟨inv.steady, inv.idle, inv.numbered, inv.told⟩
  | deliverChunk frame chunkSize expired =>
    obtain ⟨lease, _, rfl⟩ := map_eq_some_iff.mp stepped
    refine Inv.handleChunk ?_ lease chunkSize expired
    exact ⟨inv.steady, inv.idle, inv.numbered, inv.told⟩
  | turn index payload =>
    obtain ⟨handler, found, turned⟩ := bind_eq_some_iff.mp stepped
    exact inv.turn found turned
  | notify index completeId =>
    obtain ⟨handler, _, notified⟩ := bind_eq_some_iff.mp stepped
    exact inv.notify notified retained
  | receiver label =>
    have other : ∀ chunk chunkSize expired, label ≠ .handleChunk chunk chunkSize expired := by
      rintro chunk chunkSize expired rfl
      cases stepped
    have stepped : (run.receiver.step label).map (fun receiver =>
        { run with receiver := receiver, recent := run.remembers label }) = some next := by
      cases label <;> first | exact stepped | exact absurd rfl (other _ _ _)
    obtain ⟨receiver, moved, rfl⟩ := map_eq_some_iff.mp stepped
    exact inv.setReceiver _ (quiet_step inv.idle other moved)
  | forgetCompleted =>
    cases stepped
    exact ⟨inv.steady, inv.idle, inv.numbered, inv.told⟩
  | response label =>
    obtain ⟨_, moved, rfl⟩ := map_eq_some_iff.mp stepped
    exact inv.response moved retained
  | deliver index error =>
    obtain ⟨frame, found, rfl⟩ := map_eq_some_iff.mp stepped
    exact inv.deliver found error
  | deliverHeld index error =>
    obtain ⟨held, _, taken⟩ := bind_eq_some_iff.mp stepped
    obtain ⟨_, ⟨⟩⟩ := ite_none_right_eq_some.mp taken
    exact sends (BlobSenderStream.follows_handleResponse held.write)
  | loseCallis callisId =>
    cases stepped
    exact inv.loseCallis retained

theorem Coming.announced (coming : Coming streamId run.handlers run.responses run.frames) :
    run.Announced streamId := by
  cases coming with
  | pending listed notice => exact .pending listed notice
  | @queued write notice queued =>
    obtain ⟨slot, stored, waits⟩ := queued.stored
    cases leasable : slot.state.leasable with
    | true =>
      exact .queued (waits.queued leasable) stored leasable (waits.same.symm ▸ notice)
    | false =>
      obtain ⟨_, listed, rfl⟩ := mem_map.mp (waits.taken leasable)
      exact .writing listed notice
  | travelling listed notice => exact .travelling listed notice

end Inv

/-- In a run that loses no callis with a completion frame on the way, and in which numbers do not
collide with it, the sender never waits in vain for a stream that the receiver has completed. -/
theorem retained_completion_not_lost (streamId : PeerMessageId) (size : RingSize)
    (sendQueueSize : Nat) (run : TransferRun)
    (reached : ((system streamId size sendQueueSize).restrict (Retained streamId)).Reachable run) :
    ¬run.CompletionLost streamId := by
  have inv : run.Inv streamId := by
    refine reached.invariant ?_ ?_
    · rintro _ rfl
      exact inv_initial streamId size sendQueueSize
    · rintro _ _ _ inv ⟨stepped, retained⟩
      exact inv.step stepped retained
  intro lost
  have waiting : run.sender.Waiting := ⟨lost.registered, by rw [lost.awaiting]; exact id⟩
  exact lost.silent (inv.told lost.alive waiting lost.complete).announced

def twoByTwo : RingSize := ⟨2, 2, by decide, by decide⟩

/-- A stream of one byte, sealed and sent over callis 1, completes the ring of the receiver; the
ACK and the completion frame are queued. -/
def completedByte : List Label :=
  [.sender (.pollWrite [1]), .sender .pollShutdown, .sender (.resume false),
    .sender (.resume false), .sender (.lease 1 100),
    .sender (.markInflight ⟨⟨0, [1], true⟩, 100, 1, 1⟩), .writeChunk 0,
    .receiver .accept, .receiver .addPendingRequest,
    .receiver (.takePendingRequest (RingSize.new 2 2)), .receiver .insertRecvStream,
    .deliverChunk 0 2 false, .turn 0 [], .turn 0 [], .turn 0 [], .notify 0 5]

def writeResponse (callisId : CallisId) : List Label :=
  [.response (.leaseResponse callisId), .response (.markDispatch 0),
    .response (.finishWrite 0 true)]

/-- The ACK arrives, and callis 1 is lost while the completion frame is being written to it. -/
theorem retained_completion_not_lost_requeued :
    ∃ run, ((system 9 twoByTwo 1).restrict (Retained 9)).Reachable run ∧
      run.sender.history.ring.lifecycle = .awaitingComplete ∧
      run.receiver.ring.any InboundRingBuffer.holdsAll = true ∧ run.lost = [1] ∧
      ¬run.CompletionLost 9 := by
  obtain ⟨run, reached, awaiting, complete, lost⟩ :
      ∃ run, ((system 9 twoByTwo 1).restrict (Retained 9)).Reachable run ∧
        run.sender.history.ring.lifecycle = .awaitingComplete ∧
        run.receiver.ring.any InboundRingBuffer.holdsAll = true ∧ run.lost = [1] :=
    Machine.System.exists_guarded (completedByte ++ writeResponse 1 ++
      [.deliver 0 (.new .peerUnavailable), .response (.leaseResponse 1),
        .response (.markDispatch 0), .loseCallis 1, .response (.requeueCallis 1 [5]),
        .response (.finishWrite 0 false)]) rfl (by decide)
  exact ⟨run, reached, awaiting, complete, lost,
    retained_completion_not_lost 9 twoByTwo 1 run reached⟩

/-- Callis 1 is lost with the ACK and the completion frame on the way.  The chunk is replayed over
callis 2 and acknowledged there as a duplicate, and nothing makes another completion frame. -/
theorem lost_callis_loses_completion :
    ∃ run, (system 9 twoByTwo 1).Reachable run ∧ run.CompletionLost 9 := by
  obtain ⟨run, reached, registered, awaiting, drained, complete, listed, unfailed, alive,
      noHandler, noneReady, noneHeld, noFrame⟩ :
      ∃ run, (system 9 twoByTwo 1).Reachable run ∧ run.sender.registered = true ∧
        run.sender.history.ring.lifecycle = .awaitingComplete ∧
        run.sender.history.ring.chunks.isDrained = true ∧
        run.receiver.ring.any InboundRingBuffer.holdsAll = true ∧
        run.receiver.recvStream = true ∧ run.receiver.receiver.error = none ∧
        run.aborted = false ∧ run.handlers.isEmpty = true ∧
        run.responses.outbound.completeReady.isEmpty = true ∧ run.responses.held.isEmpty = true ∧
        run.frames.isEmpty = true :=
    Machine.System.exists_reachable (completedByte ++ writeResponse 1 ++ writeResponse 1 ++
      [.loseCallis 1, .response (.requeueCallis 1 []), .sender (.loseCallis 1),
        .sender (.lease 2 101), .sender (.markInflight ⟨⟨0, [1], true⟩, 101, 2, 2⟩),
        .writeChunk 1, .deliverChunk 0 2 false, .turn 0 [], .turn 0 []] ++
      writeResponse 2 ++ [.deliver 0 (.new .peerUnavailable)]) rfl (by decide)
  simp only [List.isEmpty_iff] at noHandler noneReady noneHeld noFrame
  refine ⟨run, reached, registered, awaiting, drained, complete, .inl listed, unfailed, alive,
    fun announced => ?_⟩
  cases announced with
  | pending listed _ => simp [noHandler] at listed
  | queued ready _ _ _ => simp [noneReady] at ready
  | writing listed _ => simp [noneHeld] at listed
  | travelling listed _ => simp [noFrame] at listed

end TransferRun

end AureliaPeering.Blob
