import AureliaPeering.Blob.BufferTracker
import AureliaPeering.Blob.InboundState
import AureliaPeering.Peer.Negotiation
import AureliaPeering.Ring.HeldBytes

/-!
The bytes that are reserved for a stream, and the bytes that its ring holds.

The reservation is taken with the configuration of the moment, the ring is made with the settings
that a callis has agreed on earlier or later.
-/

namespace AureliaPeering.Blob

open AureliaPeering.Ring Collections Config Peer Wire Option

/-- `try_reserve_side` with no other call on the tracker in between. -/
def BlobBufferTracker.tryReserve (tracker : BlobBufferTracker) (side : BlobBufferSide)
    (bytes cap : Nat) : Option BlobBufferTracker :=
  match (ReserveSide.start side bytes cap).turn tracker with
  | .finished _ _ => none
  | .running attempt =>
    match attempt.turn tracker with
    | .finished true reserved => some reserved
    | _ => none

def BlobBufferTracker.release (tracker : BlobBufferTracker) (side : BlobBufferSide)
    (bytes : Nat) : BlobBufferTracker :=
  tracker.store side ((ReleaseSide.start side bytes).remaining (tracker.used side))

structure StreamBuffers where
  config : DomusConfig
  tracker : BlobBufferTracker
  blob : BlobManager
  /-- The hellos that were sent and whose response is to be read. -/
  proposed : List (Nat × Nat)
  /-- The settings of the callis so far; a task may still hold those of one that is gone. -/
  agreed : List BlobCallisSettings
  /-- Requests that await the decision of their taberna. -/
  awaiting : List PeerMessageId
  /-- The calls of `send_blob` that have their reservation and not yet their ring. -/
  sending : List PeerMessageId
  streams : HashMap PeerMessageId OutboundHistory

inductive BufferLabel where
  | configure (config : DomusConfig)
  /-- The other peers of the domus use the tracker as well. -/
  | others (tracker : BlobBufferTracker)
  | sendHello
  | readResponse (chunk window : Nat) (response : HelloPayload)
  | answerHello (hello : HelloPayload)
  | reserveInbound (streamId : PeerMessageId)
  | releaseInbound (streamId : PeerMessageId)
  | acceptRequest (streamId : PeerMessageId) (request : PendingBlobRequest)
  | dropRequest (streamId : PeerMessageId)
  | activate (streamId : PeerMessageId) (settings : BlobCallisSettings) (deadline : Instant)
  | insertChunk (streamId : PeerMessageId) (chunk : Chunk)
  | takeNext (streamId : PeerMessageId)
  | removeRecvStream (streamId : PeerMessageId)
  | reserveOutbound (streamId : PeerMessageId)
  | releaseOutbound (streamId : PeerMessageId)
  | registerStream (streamId : PeerMessageId) (settings : BlobCallisSettings)
  | ring (streamId : PeerMessageId) (op : RingOp)
  | removeStream (streamId : PeerMessageId)
deriving DecidableEq

namespace StreamBuffers

def new (config : DomusConfig) : StreamBuffers where
  config := config
  tracker := .empty
  blob := .new config.sendQueueSize
  proposed := []
  agreed := []
  awaiting := []
  sending := []
  streams := ∅

/-- `reservation_bytes` of `handle_blob_request` and `send_blob`. -/
def reservationBytes (config : DomusConfig) : Nat :=
  saturatingMul config.blobWindow.chunkSize config.blobWindow.ackWindow

abbrev recvStreams (buffers : StreamBuffers) : HashMap PeerMessageId BlobRecvStream :=
  buffers.blob.inbound.recvStreams

def setRecvStream (buffers : StreamBuffers) (streamId : PeerMessageId) (stream : BlobRecvStream)
    (ring : InboundRingBuffer) : StreamBuffers :=
  { buffers with blob := buffers.blob.insertRecvStream streamId { stream with ring } }

def activateStep (buffers : StreamBuffers) (streamId : PeerMessageId)
    (settings : BlobCallisSettings) (deadline : Instant) : StreamBuffers :=
  if (buffers.recvStreams.lookup streamId).isSome then buffers
  else
    match buffers.blob.inbound.pendingRequests.lookup streamId with
    | none => buffers
    | some request =>
      let taken := { buffers with blob := buffers.blob.removePendingRequest streamId }
      match RingSize.new settings.chunkSize settings.ackWindowChunks with
      | .error _ => taken
      | .ok size =>
        let stream := ⟨request.tabernaId, request.receiver, .new size, deadline⟩
        { taken with blob := taken.blob.insertRecvStream streamId stream }

def registerStep (buffers : StreamBuffers) (streamId : PeerMessageId)
    (settings : BlobCallisSettings) : StreamBuffers :=
  let taken := { buffers with sending := buffers.sending.filter (· ≠ streamId) }
  match RingSize.new settings.chunkSize settings.ackWindowChunks with
  | .error _ => taken
  | .ok size => { taken with streams := taken.streams.insert streamId (.new size) }

def step (buffers : StreamBuffers) : BufferLabel → Option StreamBuffers
  | .configure config => some { buffers with config }
  | .others tracker => some { buffers with tracker }
  | .sendHello => some { buffers with proposed :=
      (buffers.config.blobWindow.chunkSize, buffers.config.blobWindow.ackWindow) ::
        buffers.proposed }
  | .readResponse chunk window response =>
    if (chunk, window) ∈ buffers.proposed then
      match validateBlobHelloResponse chunk window response with
      | .error _ => some buffers
      | .ok settings => some { buffers with agreed := settings :: buffers.agreed }
    else none
  | .answerHello hello =>
    match answerBlobHello buffers.config hello with
    | .error _ => some buffers
    | .ok settings => some { buffers with agreed := settings :: buffers.agreed }
  | .reserveInbound streamId =>
    let bytes := reservationBytes buffers.config
    match buffers.tracker.tryReserve .inbound bytes buffers.config.blobInboundBufferBytes with
    | none => some buffers
    | some tracker => some { buffers with
        tracker
        blob := buffers.blob.reserveInbound streamId bytes
        awaiting := streamId :: buffers.awaiting }
  | .releaseInbound streamId =>
    match buffers.blob.reservations.inbound.lookup streamId with
    | none => some buffers
    | some bytes => some { buffers with
        tracker := buffers.tracker.release .inbound bytes
        blob := buffers.blob.releaseInbound streamId }
  | .acceptRequest streamId request =>
    if streamId ∈ buffers.awaiting then
      some { buffers with
        awaiting := buffers.awaiting.erase streamId
        blob := buffers.blob.addPendingRequest streamId request }
    else none
  | .dropRequest streamId => some { buffers with
      awaiting := buffers.awaiting.filter (· ≠ streamId)
      blob := buffers.blob.removePendingRequest streamId }
  | .activate streamId settings deadline =>
    if settings ∈ buffers.agreed then some (buffers.activateStep streamId settings deadline)
    else none
  | .insertChunk streamId chunk => (buffers.recvStreams.lookup streamId).map fun stream =>
    buffers.setRecvStream streamId stream (stream.ring.insertChunk chunk).1
  | .takeNext streamId => (buffers.recvStreams.lookup streamId).bind fun stream =>
    stream.ring.takeNext.map fun (_, ring) => buffers.setRecvStream streamId stream ring
  | .removeRecvStream streamId =>
    some { buffers with blob := buffers.blob.setRecvStreams (buffers.recvStreams.erase streamId) }
  | .reserveOutbound streamId =>
    let bytes := reservationBytes buffers.config
    match buffers.tracker.tryReserve .outbound bytes buffers.config.blobOutboundBufferBytes with
    | none => some buffers
    | some tracker => some { buffers with
        tracker
        blob := buffers.blob.reserveOutbound streamId bytes
        sending := streamId :: buffers.sending }
  | .releaseOutbound streamId =>
    match buffers.blob.reservations.outbound.lookup streamId with
    | none => some buffers
    | some bytes => some { buffers with
        tracker := buffers.tracker.release .outbound bytes
        blob := buffers.blob.releaseOutbound streamId }
  | .registerStream streamId settings =>
    if settings ∈ buffers.agreed ∧ streamId ∈ buffers.sending then
      some (buffers.registerStep streamId settings)
    else none
  | .ring streamId op => (buffers.streams.lookup streamId).map fun history =>
    { buffers with streams := buffers.streams.insert streamId (history.apply op) }
  | .removeStream streamId => some { buffers with streams := buffers.streams.erase streamId }

def system : Machine.System StreamBuffers BufferLabel :=
  .ofStep (fun start => ∃ config, start = new config) step

def inboundBytes (buffers : StreamBuffers) (streamId : PeerMessageId) : Nat :=
  (buffers.blob.reservations.inbound.lookup streamId).getD 0

def outboundBytes (buffers : StreamBuffers) (streamId : PeerMessageId) : Nat :=
  (buffers.blob.reservations.outbound.lookup streamId).getD 0

/-- What the rings of a stream hold is reserved for it. -/
def Covered (buffers : StreamBuffers) (streamId : PeerMessageId) : Prop :=
  (∀ stream, buffers.recvStreams.lookup streamId = some stream →
    stream.ring.heldBytes ≤ buffers.inboundBytes streamId) ∧
  ∀ history, buffers.streams.lookup streamId = some history →
    history.ring.chunks.heldBytes ≤ buffers.outboundBytes streamId

/-- The ring of the stream is made with settings that its reservation covers, an outbound one with
a chunk to spare; it is reserved for before it has a ring, and released once it has none or, for an
outbound stream, once the ring is spent. -/
def Backed (streamId : PeerMessageId) (buffers : StreamBuffers) : BufferLabel → Prop
  | .activate other settings _ => other = streamId →
      settings.ackWindowChunks * settings.chunkSize ≤ buffers.inboundBytes streamId
  | .registerStream other settings => other = streamId →
      (settings.ackWindowChunks + 1) * settings.chunkSize ≤ buffers.outboundBytes streamId
  | .reserveInbound other | .releaseInbound other => other = streamId →
      buffers.recvStreams.lookup streamId = none
  | .reserveOutbound other => other = streamId → buffers.streams.lookup streamId = none
  | .releaseOutbound other => other = streamId →
      ∀ history ∈ buffers.streams.lookup streamId, history.Spent
  | _ => True

instance (streamId : PeerMessageId) (buffers : StreamBuffers) (label : BufferLabel) :
    Decidable (Backed streamId buffers label) := by
  unfold Backed
  split <;> infer_instance

/-- What is known of the rings of a stream in a backed run. -/
structure Within (streamId : PeerMessageId) (buffers : StreamBuffers) : Prop where
  inbound : ∀ stream, buffers.recvStreams.lookup streamId = some stream →
    ∃ size, stream.ring.Bounded size ∧
      size.windowSize * size.chunkSize ≤ buffers.inboundBytes streamId
  outbound : ∀ history, buffers.streams.lookup streamId = some history → history.Spent ∨
    ∃ size, history.Sized size ∧
      (size.windowSize + 1) * size.chunkSize ≤ buffers.outboundBytes streamId

theorem Within.covered {streamId : PeerMessageId} {buffers : StreamBuffers}
    (within : Within streamId buffers) : buffers.Covered streamId := by
  constructor
  · intro stream found
    obtain ⟨size, bounded, reserved⟩ := within.inbound stream found
    exact bounded.heldBytes_le.trans reserved
  · intro history found
    rcases within.outbound history found with spent | ⟨size, sized, reserved⟩
    · rw [spent.empty]
      exact Nat.zero_le _
    · exact sized.heldBytes_le.trans reserved

section Steps

variable {streamId : PeerMessageId} {buffers next : StreamBuffers}
variable {other : PeerMessageId} {settings : BlobCallisSettings} {map : HashMap PeerMessageId Nat}
  {Unneeded : Prop}

theorem size_of_new {chunk window : Nat} {size : RingSize}
    (made : RingSize.new chunk window = .ok size) :
    size.chunkSize = chunk ∧ size.windowSize = window := by
  unfold RingSize.new at made
  split at made
  · cases made
  · cases made
    exact ⟨rfl, rfl⟩

section Within

variable (within : Within streamId buffers)

include within

theorem Within.congr
    (recvStreams : next.recvStreams.lookup streamId = buffers.recvStreams.lookup streamId)
    (reservations : next.blob.reservations = buffers.blob.reservations)
    (streams : next.streams.lookup streamId = buffers.streams.lookup streamId) :
    Within streamId next := by
  refine ⟨?_, ?_⟩
  · unfold inboundBytes
    rw [recvStreams, reservations]
    exact within.inbound
  · unfold outboundBytes
    rw [streams, reservations]
    exact within.outbound

theorem within_activate (deadline : Instant) (backed : other = streamId →
      settings.ackWindowChunks * settings.chunkSize ≤ buffers.inboundBytes streamId) :
    Within streamId (buffers.activateStep other settings deadline) := by
  unfold activateStep
  split
  · exact within
  · split
    · exact within
    · dsimp only
      split
      · exact within.congr rfl rfl rfl
      · next size made =>
          obtain ⟨isChunk, isWindow⟩ := size_of_new made
          by_cases here : other = streamId
          · subst here
            refine ⟨?_, within.outbound⟩
            intro stream found
            obtain rfl := some.inj ((AList.lookup_insert _).symm.trans found)
            refine ⟨size, .start size, ?_⟩
            rw [isChunk, isWindow]
            exact backed rfl
          · exact within.congr (AList.lookup_insert_ne (Ne.symm here)) rfl rfl

theorem within_register (backed : other = streamId →
      (settings.ackWindowChunks + 1) * settings.chunkSize ≤ buffers.outboundBytes streamId) :
    Within streamId (buffers.registerStep other settings) := by
  unfold registerStep
  dsimp only
  split
  · exact within.congr rfl rfl rfl
  · next size made =>
      obtain ⟨isChunk, isWindow⟩ := size_of_new made
      by_cases here : other = streamId
      · subst here
        refine ⟨within.inbound, ?_⟩
        intro history found
        rw [AList.lookup_insert] at found
        cases found
        refine .inr ⟨size, .start size, ?_⟩
        rw [isChunk, isWindow]
        exact backed rfl
      · exact within.congr rfl rfl (AList.lookup_insert_ne (Ne.symm here))

theorem Within.setInbound
    {stream : BlobRecvStream} {ring : InboundRingBuffer}
    (found : buffers.recvStreams.lookup other = some stream)
    (bounded : ∀ size, stream.ring.Bounded size → ring.Bounded size) :
    Within streamId (buffers.setRecvStream other stream ring) := by
  by_cases here : other = streamId
  · subst here
    refine ⟨?_, within.outbound⟩
    intro changed isChanged
    obtain rfl := some.inj ((AList.lookup_insert _).symm.trans isChanged)
    obtain ⟨size, before, reserved⟩ := within.inbound _ found
    exact ⟨size, bounded size before, reserved⟩
  · exact within.congr (AList.lookup_insert_ne (Ne.symm here)) rfl rfl

theorem Within.setOutbound
    {history : OutboundHistory} (found : buffers.streams.lookup other = some history)
    (op : RingOp) :
    Within streamId
      { buffers with streams := buffers.streams.insert other (history.apply op) } := by
  by_cases here : other = streamId
  · subst here
    refine ⟨within.inbound, ?_⟩
    intro changed isChanged
    rw [AList.lookup_insert] at isChanged
    cases isChanged
    rcases within.outbound history found with spent | ⟨size, sized, reserved⟩
    · exact .inl (spent.apply op)
    · exact .inr ⟨size, sized.apply op, reserved⟩
  · exact within.congr rfl rfl (AList.lookup_insert_ne (Ne.symm here))

/-- A reservation changes while no ring needs it, or for another stream. -/
theorem Within.reserve
    (recvStreams : next.recvStreams = buffers.recvStreams)
    (streams : next.streams = buffers.streams)
    (inbound : next.blob.reservations.inbound.lookup streamId =
        buffers.blob.reservations.inbound.lookup streamId ∨
      buffers.recvStreams.lookup streamId = none)
    (outbound : next.blob.reservations.outbound.lookup streamId =
        buffers.blob.reservations.outbound.lookup streamId ∨
      ∀ history ∈ buffers.streams.lookup streamId, history.Spent) :
    Within streamId next := by
  refine ⟨?_, ?_⟩
  · intro stream found
    rw [recvStreams] at found
    rcases inbound with same | none
    · unfold inboundBytes
      rw [same]
      exact within.inbound stream found
    · cases none.symm.trans found
  · intro history found
    rw [streams] at found
    rcases outbound with same | spent
    · unfold outboundBytes
      rw [same]
      exact within.outbound history found
    · exact .inl (spent history found)

end Within

theorem lookup_insert_or (bytes : Nat) (unneeded : other = streamId → Unneeded) :
    (AList.insert other bytes map).lookup streamId = map.lookup streamId ∨ Unneeded := by
  by_cases here : other = streamId
  · exact .inr (unneeded here)
  · exact .inl (AList.lookup_insert_ne (Ne.symm here))

theorem lookup_erase_or (unneeded : other = streamId → Unneeded) :
    (AList.erase other map).lookup streamId = map.lookup streamId ∨ Unneeded := by
  by_cases here : other = streamId
  · exact .inr (unneeded here)
  · exact .inl (AList.lookup_erase_ne (Ne.symm here))

theorem within_step {label : BufferLabel} (within : Within streamId buffers)
    (stepped : buffers.step label = some next) (backed : Backed streamId buffers label) :
    Within streamId next := by
  cases label with
  | configure config | others tracker | sendHello | dropRequest other =>
    cases stepped
    exact within.congr rfl rfl rfl
  | readResponse chunk window response =>
    obtain ⟨_, read⟩ := ite_none_right_eq_some.mp stepped
    split at read
    · cases read
      exact within
    · cases read
      exact within.congr rfl rfl rfl
  | answerHello hello =>
    simp only [step] at stepped
    split at stepped
    · cases stepped
      exact within
    · cases stepped
      exact within.congr rfl rfl rfl
  | reserveInbound other =>
    simp only [step] at stepped
    split at stepped
    · cases stepped
      exact within
    · cases stepped
      exact within.reserve rfl rfl (lookup_insert_or _ backed) (.inl rfl)
  | releaseInbound other =>
    simp only [step] at stepped
    split at stepped
    · cases stepped
      exact within
    · cases stepped
      exact within.reserve rfl rfl (lookup_erase_or backed) (.inl rfl)
  | acceptRequest other request =>
    obtain ⟨_, ⟨⟩⟩ := ite_none_right_eq_some.mp stepped
    exact within.congr rfl rfl rfl
  | activate other settings deadline =>
    obtain ⟨_, ⟨⟩⟩ := ite_none_right_eq_some.mp stepped
    exact within_activate within deadline backed
  | insertChunk other chunk =>
    obtain ⟨stream, found, rfl⟩ := map_eq_some_iff.mp stepped
    exact within.setInbound found fun _ bounded => bounded.insertChunk chunk
  | takeNext other =>
    obtain ⟨stream, found, taken⟩ := bind_eq_some_iff.mp stepped
    obtain ⟨_, took, rfl⟩ := map_eq_some_iff.mp taken
    exact within.setInbound found fun _ bounded => bounded.takeNext took
  | removeRecvStream other =>
    cases stepped
    refine ⟨?_, within.outbound⟩
    intro stream found
    replace found := (HashMap.lookup_erase_eq ..).symm.trans found
    split at found
    · cases found
    · exact within.inbound stream found
  | reserveOutbound other =>
    simp only [step] at stepped
    split at stepped
    · cases stepped
      exact within
    · cases stepped
      refine within.reserve rfl rfl (.inl rfl) (lookup_insert_or _ fun here => ?_)
      rw [backed here]
      exact nofun
  | releaseOutbound other =>
    simp only [step] at stepped
    split at stepped
    · cases stepped
      exact within
    · cases stepped
      exact within.reserve rfl rfl (.inl rfl) (lookup_erase_or backed)
  | registerStream other settings =>
    obtain ⟨_, ⟨⟩⟩ := ite_none_right_eq_some.mp stepped
    exact within_register within backed
  | ring other op =>
    obtain ⟨history, found, rfl⟩ := map_eq_some_iff.mp stepped
    exact within.setOutbound found op
  | removeStream other =>
    cases stepped
    refine ⟨within.inbound, ?_⟩
    intro history found
    rw [HashMap.lookup_erase_eq] at found
    split at found
    · cases found
    · exact within.outbound history found

end Steps

/-- In every run in which the rings of a stream are backed by its reservations, they hold no more
than is reserved for it. -/
theorem held_within_reservation (streamId : PeerMessageId) {buffers : StreamBuffers}
    (reached : (system.restrict (Backed streamId)).Reachable buffers) :
    buffers.Covered streamId := by
  have within : Within streamId buffers := by
    refine reached.invariant ?_ ?_
    · rintro _ ⟨_, rfl⟩
      exact ⟨nofun, nofun⟩
    · rintro _ _ _ holds ⟨stepped, backed⟩
      exact within_step holds stepped backed
  exact within.covered

def windowed (chunkSize ackWindow : Nat) : DomusConfig :=
  { blobWindow := ⟨chunkSize, ackWindow⟩ }

def heldBytes (buffers : StreamBuffers) (streamId : PeerMessageId) : Nat × Nat :=
  (((buffers.recvStreams.lookup streamId).map fun stream => stream.ring.heldBytes).getD 0,
    ((buffers.streams.lookup streamId).map fun history => history.ring.chunks.heldBytes).getD 0)

def acceptedRequest : PendingBlobRequest := ⟨2, true, false, none⟩

/-- The other side proposes a window of one chunk where two are reserved for. -/
theorem held_within_reservation_half :
    ∃ buffers, (system.restrict (Backed 7)).Reachable buffers ∧ buffers.heldBytes 7 = (1, 2) ∧
      buffers.Covered 7 := by
  obtain ⟨buffers, reached, held⟩ :
      ∃ buffers, (system.restrict (Backed 7)).Reachable buffers ∧ buffers.heldBytes 7 = (1, 2) :=
    Machine.System.exists_guarded [.answerHello (.blob 1 1), .reserveInbound 7,
      .acceptRequest 7 acceptedRequest, .activate 7 ⟨1, 1⟩ 9, .insertChunk 7 ⟨0, [0], false⟩,
      .reserveOutbound 7, .registerStream 7 ⟨1, 1⟩, .ring 7 (.push [0, 0])]
      ⟨windowed 1 2, rfl⟩ (by decide)
  exact ⟨buffers, reached, held, held_within_reservation 7 reached⟩

/-- With the settings that it has reserved for, an outbound ring holds a chunk too much.  An inbound
ring holds more than is reserved if the configuration has changed since its callis was made. -/
theorem rings_exceed_reservation :
    (∃ buffers, system.Reachable buffers ∧ buffers.heldBytes 7 = (0, 2) ∧
      buffers.outboundBytes 7 = 1) ∧
    ∃ buffers, system.Reachable buffers ∧ buffers.heldBytes 7 = (2, 0) ∧
      buffers.inboundBytes 7 = 1 := by
  constructor
  · exact Machine.System.exists_reachable [.answerHello (.blob 1 1), .reserveOutbound 7,
      .registerStream 7 ⟨1, 1⟩, .ring 7 (.push [0, 0])] ⟨windowed 1 1, rfl⟩ (by decide)
  · exact Machine.System.exists_reachable [.answerHello (.blob 2 1), .configure (windowed 1 1),
      .reserveInbound 7, .acceptRequest 7 acceptedRequest, .activate 7 ⟨2, 1⟩ 9,
      .insertChunk 7 ⟨0, [0, 0], false⟩] ⟨windowed 2 1, rfl⟩ (by decide)

end StreamBuffers

end AureliaPeering.Blob
