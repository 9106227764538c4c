import AureliaPeering.Ids
import AureliaPeering.Lib.HashMap
import AureliaPeering.Lib.Slots

/-!
Chunk assembly of an outbound blob stream: the partial write buffer, the pending full chunk and
the fixed window of slots.

A full chunk waits in `pendingFull` until more bytes follow it or the stream is sealed, so that a
stream that ends on a chunk boundary can still flag its last chunk.
-/

namespace AureliaPeering.Ring

open Collections

/-- The sizes of a ring.  Both ring constructors reject a zero. -/
structure RingSize where
  chunkSize : Nat
  windowSize : Nat
  chunkSize_pos : 0 < chunkSize
  windowSize_pos : 0 < windowSize
deriving DecidableEq

def RingSize.new (chunkSize windowSize : Nat) : Except AureliaError RingSize :=
  if zero : chunkSize = 0 ∨ windowSize = 0 then .error (.new .protocolViolation)
  else .ok ⟨chunkSize, windowSize, by omega, by omega⟩

structure Chunk where
  chunkId : Nat
  data : Bytes
  isLast : Bool
deriving DecidableEq, Repr

structure ChunkWriteLease extends Chunk where
  peerMsgId : PeerMessageId
  callisId : CallisId
  slotSeq : Nat
deriving DecidableEq, Repr

inductive OutboundSlot where
  | empty
  | ready (chunk : Chunk) (seq : Nat)
  | writing (chunk : Chunk) (peerMsgId : PeerMessageId) (callisId : CallisId) (seq : Nat)
  | inFlight (chunk : Chunk) (peerMsgId : PeerMessageId) (callisId : CallisId) (seq : Nat)
  | replayReady (chunk : Chunk) (previousCallisId : CallisId) (seq : Nat)
deriving DecidableEq, Repr

namespace OutboundSlot

def chunk? : OutboundSlot → Option Chunk
  | empty => none
  | ready chunk _ => some chunk
  | writing chunk _ _ _ => some chunk
  | inFlight chunk _ _ _ => some chunk
  | replayReady chunk _ _ => some chunk

def isLive (slot : OutboundSlot) : Bool := slot.chunk?.isSome

/-- The chunk and the sequence number a lease may take: from the replay-ready slots if `replay`,
from the never written ones otherwise. -/
def dispatchable (replay : Bool) : OutboundSlot → Option (Chunk × Nat)
  | ready chunk seq => if replay then none else some (chunk, seq)
  | replayReady chunk _ seq => if replay then some (chunk, seq) else none
  | _ => none

/-- What the loss of a callis does to one slot. -/
def replay (callisId : CallisId) : OutboundSlot → OutboundSlot
  | writing chunk peerMsgId holder seq =>
    if holder = callisId then replayReady chunk callisId seq
    else writing chunk peerMsgId holder seq
  | inFlight chunk peerMsgId holder seq =>
    if holder = callisId then replayReady chunk callisId seq
    else inFlight chunk peerMsgId holder seq
  | slot => slot

end OutboundSlot

structure OutboundChunks where
  size : RingSize
  nextChunkId : Nat
  writeCursor : Nat
  writeBuf : Bytes
  pendingFull : Option Bytes
  slots : List OutboundSlot
  chunkIndex : HashMap Nat Nat
  ackMap : HashMap PeerMessageId Nat
  inflight : Nat
  createdAny : Bool

inductive FinalizeDecision where
  | waitForCapacity
  | finalized (notifyWaiters : Bool)
deriving DecidableEq, Repr

inductive ChunkCompletion where
  | ack
  | error
deriving DecidableEq, Repr

/-- `Iterator::min_by_key` on pairs of an index and a chunk id: the first of the least. -/
def minByChunkId : List (Nat × Nat) → Option (Nat × Nat)
  | [] => none
  | entry :: rest =>
    match minByChunkId rest with
    | none => some entry
    | some least => if least.2 < entry.2 then some least else some entry

namespace OutboundChunks

def new (size : RingSize) : OutboundChunks where
  size := size
  nextChunkId := 0
  writeCursor := 0
  writeBuf := []
  pendingFull := none
  slots := List.replicate size.windowSize .empty
  chunkIndex := ∅
  ackMap := ∅
  inflight := 0
  createdAny := false

def liveChunkCount (chunks : OutboundChunks) : Nat := chunks.slots.countP OutboundSlot.isLive

def pendingCount (chunks : OutboundChunks) : Nat := if chunks.pendingFull.isSome then 1 else 0

def hasWindowCapacityFor (chunks : OutboundChunks) (count : Nat) : Bool :=
  chunks.liveChunkCount + chunks.pendingCount + count ≤ chunks.size.windowSize

def nextEmptySlot (chunks : OutboundChunks) : Option Nat :=
  (Slots.circle chunks.size.windowSize chunks.writeCursor).find? fun index =>
    chunks.slots[index]? = some .empty

/-- A chunk for which there is no empty slot is dropped. -/
def enqueueChunk (chunks : OutboundChunks) (data : Bytes) (isLast : Bool) : OutboundChunks :=
  match chunks.nextEmptySlot with
  | none => chunks
  | some index =>
    { chunks with
      nextChunkId := saturatingAdd chunks.nextChunkId 1
      createdAny := true
      slots := chunks.slots.set index (.ready ⟨chunks.nextChunkId, data, isLast⟩ 0)
      chunkIndex := chunks.chunkIndex.insert chunks.nextChunkId index
      writeCursor := (index + 1) % chunks.size.windowSize }

/-- Move bytes into the write buffer up to the chunk size; the rest is returned. -/
def fill (chunks : OutboundChunks) (data : Bytes) : OutboundChunks × Bytes :=
  let space := chunks.size.chunkSize - chunks.writeBuf.length
  ({ chunks with writeBuf := chunks.writeBuf ++ data.take space }, data.drop space)

/-- Enqueue the pending full chunk, if there is one; the flag tells whether to notify. -/
def flushPending (chunks : OutboundChunks) : OutboundChunks × Bool :=
  match chunks.pendingFull with
  | none => (chunks, false)
  | some pending => ({ chunks with pendingFull := none }.enqueueChunk pending false, true)

/-- Cut a full chunk off the write buffer. -/
def cutFull (chunks : OutboundChunks) : OutboundChunks × Bytes :=
  ({ chunks with
      writeBuf := chunks.writeBuf.drop chunks.size.chunkSize
      createdAny := true },
    chunks.writeBuf.take chunks.size.chunkSize)

/-- The chunk that was cut off becomes the pending one. -/
def splitFull (chunks : OutboundChunks) : OutboundChunks × Bool :=
  let (cut, chunk) := chunks.cutFull
  let (flushed, notify) := cut.flushPending
  ({ flushed with pendingFull := some chunk }, notify)

/-- The loop of `push_available`.  Every turn but the last takes a byte of `rest`, so
`rest.length + 1` turns are enough. -/
def pushFull : Nat → OutboundChunks → Bytes → Bool → OutboundChunks × Bytes × Bool
  | 0, chunks, rest, notify => (chunks, rest, notify)
  | fuel + 1, chunks, rest, notify =>
    if chunks.writeBuf.length < chunks.size.chunkSize ∨ ¬ chunks.hasWindowCapacityFor 1 then
      (chunks, rest, notify)
    else
      let (split, flushed) := chunks.splitFull
      if rest = [] then (split, rest, notify || flushed)
      else
        let (filled, remaining) := split.fill rest
        pushFull fuel filled remaining (notify || flushed)

/-- The number of bytes taken, and whether to notify. -/
def pushAvailable (chunks : OutboundChunks) (data : Bytes) : OutboundChunks × Nat × Bool :=
  let (filled, remaining) := chunks.fill data
  let (pushed, rest, notify) := pushFull (remaining.length + 1) filled remaining false
  let (final, flushed) :=
    if pushed.pendingFull.isSome ∧ pushed.writeBuf ≠ [] then pushed.flushPending
    else (pushed, false)
  (final, data.length - rest.length, notify || flushed)

def canAcceptBytes (chunks : OutboundChunks) : Bool :=
  chunks.writeBuf.length < chunks.size.chunkSize || chunks.hasWindowCapacityFor 1

/-- The slots `finalize` needs beyond the one counted for the pending chunk. -/
def needsExtra (chunks : OutboundChunks) : Nat :=
  match chunks.pendingFull.isSome, chunks.writeBuf.isEmpty with
  | true, true => 0
  | true, false => 1
  | false, _ => 1

/-- The branches of `finalize` that follow its capacity check. -/
def materialiseLast (chunks : OutboundChunks) : OutboundChunks :=
  match chunks.pendingFull with
  | some pending =>
    if chunks.writeBuf = [] then { chunks with pendingFull := none }.enqueueChunk pending true
    else
      let (enqueued, _) := chunks.flushPending
      { enqueued with writeBuf := [] }.enqueueChunk enqueued.writeBuf true
  | none =>
    if chunks.writeBuf = [] ∧ chunks.createdAny then chunks
    else
      let chunk := chunks.writeBuf
      { chunks with
        writeBuf := []
        createdAny := chunks.createdAny || !chunk.isEmpty }.enqueueChunk chunk true

/-- Every branch notifies the waiters. -/
def finalize (chunks : OutboundChunks) : OutboundChunks × FinalizeDecision :=
  if chunks.hasWindowCapacityFor chunks.needsExtra then (chunks.materialiseLast, .finalized true)
  else (chunks, .waitForCapacity)

def leaseMatching (chunks : OutboundChunks) (replay : Bool) (callisId : CallisId)
    (peerMsgId : PeerMessageId) : Option (ChunkWriteLease × OutboundChunks) := do
  let entries := chunks.slots.zipIdx.filterMap fun (slot, index) =>
    (slot.dispatchable replay).map fun entry => (index, entry.1.chunkId)
  let (index, _) ← minByChunkId entries
  let slot ← chunks.slots[index]?
  let (chunk, seq) ← slot.dispatchable replay
  let lease : ChunkWriteLease := ⟨chunk, peerMsgId, callisId, saturatingAdd seq 1⟩
  return (lease,
    { chunks with
      slots := chunks.slots.set index (.writing chunk peerMsgId callisId lease.slotSeq) })

def leaseNextChunkForWrite (chunks : OutboundChunks) (callisId : CallisId)
    (peerMsgId : PeerMessageId) : Option (ChunkWriteLease × OutboundChunks) :=
  match chunks.leaseMatching true callisId peerMsgId with
  | some leased => some leased
  | none => chunks.leaseMatching false callisId peerMsgId

def markInflight (chunks : OutboundChunks) (lease : ChunkWriteLease) : OutboundChunks × Bool :=
  match chunks.chunkIndex.lookup lease.chunkId with
  | none => (chunks, false)
  | some index =>
    match chunks.slots[index]? with
    | some (.writing chunk peerMsgId callisId seq) =>
      if chunk.chunkId = lease.chunkId ∧ peerMsgId = lease.peerMsgId ∧
          callisId = lease.callisId ∧ seq = lease.slotSeq ∧ chunk.isLast = lease.isLast then
        ({ chunks with
            slots := chunks.slots.set index (.inFlight chunk lease.peerMsgId lease.callisId seq)
            ackMap := chunks.ackMap.insert lease.peerMsgId lease.chunkId
            inflight := saturatingAdd chunks.inflight 1 }, true)
      else (chunks, false)
    | _ => (chunks, false)

/-- What the loss of a callis takes from the acknowledgement map and the in-flight count, slot
by slot. -/
def forgetInflight (callisId : CallisId) (account : HashMap PeerMessageId Nat × Nat) :
    OutboundSlot → HashMap PeerMessageId Nat × Nat
  | .inFlight _ peerMsgId holder _ =>
    if holder = callisId then (account.1.erase peerMsgId, account.2 - 1) else account
  | _ => account

def markCallisReplayReady (chunks : OutboundChunks) (callisId : CallisId) :
    OutboundChunks × Bool :=
  let (ackMap, inflight) :=
    chunks.slots.foldl (forgetInflight callisId) (chunks.ackMap, chunks.inflight)
  let slots := chunks.slots.map (OutboundSlot.replay callisId)
  ({ chunks with slots := slots, ackMap := ackMap, inflight := inflight }, slots ≠ chunks.slots)

/-- Both completions empty the slot. -/
def noteCompletion (chunks : OutboundChunks) (peerMsgId : PeerMessageId)
    (_completion : ChunkCompletion) : OutboundChunks × Bool :=
  match chunks.ackMap.lookup peerMsgId with
  | none => (chunks, false)
  | some chunkId =>
    let chunks := { chunks with ackMap := chunks.ackMap.erase peerMsgId }
    match chunks.chunkIndex.lookup chunkId with
    | none => (chunks, false)
    | some index =>
      let chunks := { chunks with chunkIndex := chunks.chunkIndex.erase chunkId }
      match chunks.slots[index]? with
      | none => (chunks, false)
      | some slot =>
        let inflight :=
          match slot with
          | .inFlight .. => chunks.inflight - 1
          | _ => chunks.inflight
        ({ chunks with inflight := inflight, slots := chunks.slots.set index .empty }, true)

/-- The partial write buffer plays no part. -/
def isDrained (chunks : OutboundChunks) : Bool :=
  chunks.liveChunkCount = 0 && chunks.pendingFull.isNone

end OutboundChunks

end AureliaPeering.Ring
