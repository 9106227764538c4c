import AureliaPeering.Ring.OutboundChunks

/-!
The inbound ring buffer: chunks stored by id and taken in order.
-/

namespace AureliaPeering.Ring

open Collections

inductive InboundInsertOutcome where
  | duplicate
  | stored (complete : Bool) (waitForSpace : Bool)
deriving DecidableEq, Repr

structure InboundRingBuffer where
  size : RingSize
  nextExpected : Nat
  nextDeliver : Nat
  lastChunkId : Option Nat
  received : HashMap Nat Bytes

def missingChunkError (expected chunkSize : Nat) : AureliaError :=
  let deliveredBytes := saturatingMul expected chunkSize
  let lastDelivered := if expected = 0 then "none" else toString (expected - 1)
  .withMessage .blobStreamMissingChunk
    ("last_delivered_chunk_id=" ++ lastDelivered ++ " delivered_bytes=" ++ toString deliveredBytes)

namespace InboundRingBuffer

def new (size : RingSize) : InboundRingBuffer := ⟨size, 0, 0, none, ∅⟩

/-- The loop over `next_expected`.  Its turns are ids that are stored, none twice while the
counter does not saturate. -/
def advance (received : HashMap Nat Bytes) : Nat → Nat → Nat
  | 0, nextExpected => nextExpected
  | fuel + 1, nextExpected =>
    if (received.lookup nextExpected).isSome then
      advance received fuel (saturatingAdd nextExpected 1)
    else nextExpected

/-- The checks that reject a chunk, or answer it as a duplicate, before anything is stored. -/
def refuse (ring : InboundRingBuffer) (chunk : Chunk) :
    Option (Except AureliaError InboundInsertOutcome) :=
  if ring.size.chunkSize < chunk.data.length then
    some (.error (.withMessage .protocolViolation
      ("chunk_len=" ++ toString chunk.data.length ++ " max_chunk_size=" ++
        toString ring.size.chunkSize)))
  else if chunk.chunkId < ring.nextDeliver then some (.ok .duplicate)
  else if saturatingAdd ring.nextExpected ring.size.windowSize ≤ chunk.chunkId then
    some (.error (.withMessage .blobAckWindowExceeded
      ("expected_chunk_id=" ++ toString ring.nextExpected ++ " window_size=" ++
        toString ring.size.windowSize)))
  else if (ring.received.lookup chunk.chunkId).isSome then some (.ok .duplicate)
  else if ring.size.windowSize ≤ ring.received.entries.length then
    some (.error (.withMessage .blobBufferFull
      ("received_chunks=" ++ toString ring.received.entries.length ++ " window_size=" ++
        toString ring.size.windowSize)))
  else if chunk.isLast ∧ ring.nextExpected < chunk.chunkId then
    some (.error (missingChunkError ring.nextExpected ring.size.chunkSize))
  else none

/-- A full buffer that lacks the next chunk but holds a later one. -/
def hasGap (ring : InboundRingBuffer) : Bool :=
  decide (ring.size.windowSize ≤ ring.received.entries.length) &&
    (ring.received.lookup ring.nextExpected).isNone &&
    ring.received.keys.any fun chunkId => decide (ring.nextExpected < chunkId)

/-- The chunk enters the map and `next_expected` moves on. -/
def store (ring : InboundRingBuffer) (chunk : Chunk) : InboundRingBuffer :=
  let received := ring.received.insert chunk.chunkId chunk.data
  { ring with
    received := received
    nextExpected :=
      if chunk.chunkId = ring.nextExpected then
        advance received (received.entries.length + 1) ring.nextExpected
      else ring.nextExpected }

/-- A gap is reported after the chunk is stored and before the last id is recorded. -/
def insertChunk (ring : InboundRingBuffer) (chunk : Chunk) :
    InboundRingBuffer × Except AureliaError InboundInsertOutcome :=
  match ring.refuse chunk with
  | some answer => (ring, answer)
  | none =>
    let stored := ring.store chunk
    if stored.hasGap then
      (stored, .error (missingChunkError stored.nextExpected stored.size.chunkSize))
    else
      let lastChunkId := if chunk.isLast then some chunk.chunkId else stored.lastChunkId
      let complete :=
        match lastChunkId with
        | some last => decide (stored.nextExpected = saturatingAdd last 1)
        | none => false
      ({ stored with lastChunkId := lastChunkId }, .ok (.stored complete false))

def takeNext (ring : InboundRingBuffer) : Option (Bytes × InboundRingBuffer) := do
  let data ← ring.received.lookup ring.nextDeliver
  let nextDeliver := saturatingAdd ring.nextDeliver 1
  return (data,
    { ring with
      received := ring.received.erase ring.nextDeliver
      nextDeliver := nextDeliver
      nextExpected := max ring.nextExpected nextDeliver })

def isComplete (ring : InboundRingBuffer) : Bool :=
  match ring.lastChunkId with
  | some last => decide (last < ring.nextDeliver)
  | none => false

end InboundRingBuffer

end AureliaPeering.Ring
