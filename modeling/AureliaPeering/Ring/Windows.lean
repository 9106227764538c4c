import AureliaPeering.Lib.Machine
import AureliaPeering.Ring.History
import AureliaPeering.Ring.Reassembly

/-!
The window of the sender against the window of the receiver.

The sender bounds the number of chunks that are not acknowledged, the receiver bounds their ids
from the first one it lacks.
-/

namespace AureliaPeering.Ring

open Collections List Option

namespace InboundRingBuffer

theorem isSome_of_lt_advance {received : HashMap Nat Bytes} {fuel nextExpected id : Nat}
    (small : ∀ id, (received.lookup id).isSome → id < u64Max) (from_ : nextExpected ≤ id)
    (below : id < advance received fuel nextExpected) : (received.lookup id).isSome := by
  induction fuel generalizing nextExpected with
  | zero =>
    rw [advance] at below
    omega
  | succ fuel ih =>
    rw [advance] at below
    split at below
    · rename_i present
      rw [saturatingAdd_one (small nextExpected present)] at below
      rcases Nat.eq_or_lt_of_le from_ with rfl | later
      · exact present
      · exact ih later below
    · omega

/-- The ids from the next delivery up to the next expected one are stored, and nothing before them
or beyond the window is. -/
structure Contiguous (ring : InboundRingBuffer) : Prop extends Steady ring where
  filled : ∀ id, ring.nextDeliver ≤ id → id < ring.nextExpected → (ring.received.lookup id).isSome
  windowed : ∀ id, (ring.received.lookup id).isSome →
    ring.nextDeliver ≤ id ∧ id < ring.nextExpected + ring.size.windowSize

section Contiguous

variable {ring next : InboundRingBuffer} {chunk : Chunk}
variable {received : HashMap Nat Bytes} {data : Bytes}

theorem Contiguous.start (size : RingSize) : (new size).Contiguous :=
  ⟨.start size, fun id _ below => absurd below (Nat.not_lt_zero id), by simp [new]⟩

theorem chunkId_lt_of_admitted (admitted : ring.refuse chunk = none) :
    chunk.chunkId < ring.nextExpected + ring.size.windowSize := by
  unfold refuse at admitted
  split_ifs at admitted with tooLong delivered beyond
  have limit : saturatingAdd ring.nextExpected ring.size.windowSize ≤
      ring.nextExpected + ring.size.windowSize := Nat.min_le_left _ _
  omega

theorem isSome_insert {id : Nat} (key : Nat) :
    ((received.insert key data).lookup id).isSome ↔ id = key ∨ (received.lookup id).isSome := by
  rw [HashMap.lookup_insert_eq]
  split <;> simp_all

variable (contiguous : ring.Contiguous)

include contiguous

theorem Contiguous.store (admitted : ring.refuse chunk = none) : (ring.store chunk).Contiguous := by
  have window := chunkId_lt_of_admitted admitted
  obtain ⟨ahead, below, _⟩ := refuse_eq_none admitted
  have forward := (contiguous.nextExpected_store below).1
  refine ⟨contiguous.toSteady.store admitted, fun id delivered early => ?_, fun id present => ?_⟩
  · change ((ring.received.insert chunk.chunkId chunk.data).lookup id).isSome
    rcases Nat.lt_or_ge id ring.nextExpected with old | late
    · exact (isSome_insert _).mpr (.inr (contiguous.filled id delivered old))
    · unfold InboundRingBuffer.store at early
      dsimp only at early
      split_ifs at early
      · exact isSome_of_lt_advance (contiguous.small_insert below) late early
      · omega
  · change ring.nextDeliver ≤ id ∧ id < (ring.store chunk).nextExpected + ring.size.windowSize
    rcases (isSome_insert chunk.chunkId).mp present with rfl | old
    · omega
    · have := contiguous.windowed id old
      omega

theorem Contiguous.insertChunk (chunk : Chunk) : (ring.insertChunk chunk).1.Contiguous := by
  have steady := contiguous.toSteady.insertChunk chunk
  rcases ring.insertChunk_cases chunk with ⟨_, _, unchanged⟩ | ⟨admitted, last, _, stored⟩
  · rw [unchanged]
    exact contiguous
  · rw [stored] at steady ⊢
    exact { contiguous.store admitted with toSteady := steady }

theorem Contiguous.takeNext (took : ring.takeNext = some (data, next)) : next.Contiguous := by
  have steady := (contiguous.toSteady.takeNext took).1
  obtain ⟨found, rfl⟩ := takeNext_eq_some took
  have step := saturatingAdd_one (contiguous.small ring.nextDeliver (by simp [found]))
  refine ⟨steady, fun id ahead below => ?_, fun id present => ?_⟩
  · dsimp only at ahead below ⊢
    rw [AList.lookup_erase_ne (by omega)]
    exact contiguous.filled id (by omega) (by omega)
  · dsimp only at present ⊢
    rw [HashMap.lookup_erase_eq] at present
    split at present
    · cases present
    · have := contiguous.windowed id present
      omega

theorem Contiguous.drained (drained : ring.takeNext = none) :
    ring.nextDeliver = ring.nextExpected := by
  by_contra apart
  have before := Nat.lt_of_le_of_ne contiguous.delivered apart
  obtain ⟨_, found⟩ := isSome_iff_exists.mp
    (contiguous.filled ring.nextDeliver (Nat.le_refl _) before)
  simp [InboundRingBuffer.takeNext, found] at drained

omit contiguous

theorem length_lt_of_missing {low width gap : Nat}
    (inside : ∀ id, (received.lookup id).isSome → low ≤ id ∧ id < low + width)
    (isGap : low ≤ gap ∧ gap < low + width) (missing : received.lookup gap = none) :
    received.entries.length < width := by
  have absent : gap ∉ received.keys := fun listed => by
    have present := AList.lookup_isSome.mpr (AList.mem_keys.mp listed)
    simp [missing] at present
  have distinct : (gap :: received.keys).Nodup :=
    nodup_cons.mpr ⟨absent, received.nodupKeys⟩
  have covered : gap :: received.keys ⊆ range' low width := by
    intro id listed
    refine mem_range'_1.mpr ?_
    rcases mem_cons.mp listed with rfl | stored
    · exact isGap
    · exact inside id (AList.lookup_isSome.mpr (AList.mem_keys.mp stored))
  have bound := (subperm_of_subset distinct covered).length_le
  have length : received.keys.length = received.entries.length := length_map _
  rw [length_cons, length_range', length] at bound
  exact bound

theorem Contiguous.ahead (contiguous : ring.Contiguous) (drained : ring.takeNext = none) (id : Nat)
    (present : (ring.received.lookup id).isSome) :
    ring.nextExpected ≤ id ∧ id < ring.nextExpected + ring.size.windowSize := by
  rw [← contiguous.drained drained]
  nth_rewrite 2 [contiguous.drained drained]
  exact contiguous.windowed id present

/-- A chunk stored in a drained ring never leaves a full buffer with a gap. -/
theorem Contiguous.hasGap_store (contiguous : ring.Contiguous)
    (drained : ring.takeNext = none) (admitted : ring.refuse chunk = none) :
    (ring.store chunk).hasGap = false := by
  have kept := contiguous.store admitted
  have grown := (contiguous.nextExpected_store (refuse_eq_none admitted).2.1).1
  by_contra gapped
  rw [Bool.not_eq_false] at gapped
  simp only [hasGap, Bool.and_eq_true, decide_eq_true_eq, List.any_eq_true] at gapped
  obtain ⟨⟨full, _⟩, later, listed, _⟩ := gapped
  have window := chunkId_lt_of_admitted admitted
  have delivered := (refuse_eq_none admitted).1
  rw [contiguous.drained drained] at delivered
  have inside : ∀ id, ((ring.store chunk).received.lookup id).isSome →
      ring.nextExpected ≤ id ∧ id < ring.nextExpected + ring.size.windowSize := by
    intro id present
    rcases (isSome_insert _).mp present with rfl | old
    · exact ⟨delivered, window⟩
    · exact contiguous.ahead drained id old
  have bound := inside later (AList.lookup_isSome.mpr (AList.mem_keys.mp listed))
  have short := length_lt_of_missing inside ⟨grown, by omega⟩ kept.missing
  exact absurd full (Nat.not_le.mpr short)

theorem Contiguous.insertChunk_error (contiguous : ring.Contiguous)
    (drained : ring.takeNext = none) (fits : chunk.data.length ≤ ring.size.chunkSize)
    {error : AureliaError} (rejected : (ring.insertChunk chunk).2 = .error error) :
    error.kind = .blobAckWindowExceeded ∧
        saturatingAdd ring.nextExpected ring.size.windowSize ≤ chunk.chunkId ∨
      error.kind = .blobStreamMissingChunk ∧ chunk.isLast = true ∧
        ring.nextExpected < chunk.chunkId := by
  have room : ring.received.entries.length < ring.size.windowSize :=
    length_lt_of_missing (contiguous.ahead drained)
      ⟨Nat.le_refl _, Nat.lt_add_of_pos_right ring.size.windowSize_pos⟩ contiguous.missing
  unfold InboundRingBuffer.insertChunk at rejected
  split at rejected
  · rename_i answer refused
    subst rejected
    unfold refuse at refused
    split_ifs at refused with tooLong delivered beyond present full early
    · exact absurd fits (Nat.not_le.mpr tooLong)
    · cases refused
    · cases refused
      exact .inl ⟨rfl, beyond⟩
    · cases refused
    · exact absurd room (Nat.not_lt.mpr full)
    · cases refused
      exact .inr ⟨rfl, early⟩
  · rename_i admitted
    have none := contiguous.hasGap_store drained admitted
    simp [none] at rejected

end Contiguous

end InboundRingBuffer

namespace InboundRingBuffer

theorem insertChunk_size (ring : InboundRingBuffer) (chunk : Chunk) :
    (ring.insertChunk chunk).1.size = ring.size := by
  unfold insertChunk
  split
  · rfl
  · dsimp only
    split <;> rfl

end InboundRingBuffer

/-- Only the last chunk may be shorter than the chunk size, and only the first may be empty. -/
def Chunk.Shaped (chunk : Chunk) (limit : Nat) : Prop :=
  chunk.data.length ≤ limit ∧ (chunk.isLast = false → chunk.data.length = limit) ∧
    (chunk.data = [] → chunk.chunkId = 0)

namespace OutboundChunks

/-- What is staged or held has the length it should have. -/
structure Fits (chunks : OutboundChunks) (limit : Nat) : Prop where
  chunkSize : chunks.size.chunkSize = limit
  held : ∀ slot ∈ chunks.slots, ∀ chunk, slot.chunk? = some chunk → chunk.Shaped limit
  pending : ∀ data, chunks.pendingFull = some data → data.length = limit
  buffered : chunks.writeBuf.length ≤ limit
  begun : chunks.createdAny = false → chunks.nextChunkId = 0

section Fits

variable {chunks next : OutboundChunks} {limit : Nat}
variable {data : Bytes}

theorem Fits.start (size : RingSize) : (new size).Fits size.chunkSize := by
  refine ⟨rfl, fun slot listed chunk found => ?_, nofun, Nat.zero_le _, fun _ => rfl⟩
  obtain rfl := eq_of_mem_replicate listed
  cases found

section Kept

variable (fits : chunks.Fits limit)

include fits

theorem Fits.ne_nil (full : data.length = limit) :
    data ≠ [] := by
  rintro rfl
  have positive := chunks.size.chunkSize_pos
  rw [fits.chunkSize, ← full] at positive
  exact Nat.lt_irrefl 0 positive

theorem Fits.enqueueChunk {isLast : Bool}
    (shaped : Chunk.Shaped ⟨chunks.nextChunkId, data, isLast⟩ limit) :
    (chunks.enqueueChunk data isLast).Fits limit := by
  unfold OutboundChunks.enqueueChunk
  split
  · exact fits
  · refine ⟨fits.chunkSize, fun slot listed chunk found => ?_, fits.pending, fits.buffered, nofun⟩
    rcases mem_or_eq_of_mem_set listed with old | rfl
    · exact fits.held slot old chunk found
    · cases found
      exact shaped

theorem Fits.fill (data : Bytes) : (chunks.fill data).1.Fits limit := by
  refine ⟨fits.chunkSize, fits.held, fits.pending, ?_, fits.begun⟩
  have buffered := fits.buffered
  simp only [OutboundChunks.fill, length_append, length_take, fits.chunkSize]
  omega

theorem Fits.enqueuePending
    (isPending : chunks.pendingFull = some data) (isLast : Bool) :
    ({ chunks with pendingFull := none }.enqueueChunk data isLast).Fits limit := by
  have full := fits.pending data isPending
  have unstaged : { chunks with pendingFull := none }.Fits limit :=
    ⟨fits.chunkSize, fits.held, nofun, fits.buffered, fits.begun⟩
  exact unstaged.enqueueChunk
    ⟨full.le, fun _ => full, fun empty => absurd empty (fits.ne_nil full)⟩

theorem Fits.flushPending : chunks.flushPending.1.Fits limit := by
  unfold OutboundChunks.flushPending
  split
  · exact fits
  · rename_i pending isPending
    exact fits.enqueuePending isPending false

theorem Fits.splitFull (full : limit ≤ chunks.writeBuf.length) :
    chunks.splitFull.1.Fits limit := by
  have cut : chunks.cutFull.1.Fits limit := by
    refine ⟨fits.chunkSize, fits.held, fits.pending, ?_, nofun⟩
    simp only [cutFull, length_drop]
    exact Nat.le_trans (Nat.sub_le _ _) fits.buffered
  have flushed := cut.flushPending
  refine ⟨flushed.chunkSize, flushed.held, fun data isPending => ?_, flushed.buffered,
    flushed.begun⟩
  cases isPending
  simp only [length_take, fits.chunkSize]
  exact Nat.min_eq_left full

theorem Fits.pushFull (fuel : Nat) (rest : Bytes) (notify : Bool) :
    (OutboundChunks.pushFull fuel chunks rest notify).1.Fits limit := by
  induction fuel generalizing chunks rest notify with
  | zero => exact fits
  | succ fuel ih =>
    rw [OutboundChunks.pushFull]
    split
    · exact fits
    · rename_i turn
      have split := fits.splitFull (fits.chunkSize ▸ Nat.le_of_not_lt (not_or.mp turn).1)
      dsimp only
      split
      · exact split
      · exact ih (split.fill rest) _ _

theorem Fits.pushAvailable (data : Bytes) :
    (chunks.pushAvailable data).1.Fits limit := by
  have pushed :=
    (fits.fill data).pushFull ((chunks.fill data).2.length + 1) (chunks.fill data).2 false
  simp only [OutboundChunks.pushAvailable]
  split
  · exact pushed.flushPending
  · exact pushed

theorem Fits.finalize : chunks.finalize.1.Fits limit := by
  -- The partial chunk is enqueued as the last one.
  have last {before : OutboundChunks} (kept : before.Fits limit) (createdAny : Bool)
      (first : before.writeBuf = [] → before.nextChunkId = 0)
      (begun : createdAny = false → before.nextChunkId = 0) :
      ({ before with writeBuf := [], createdAny := createdAny }.enqueueChunk before.writeBuf
        true).Fits limit := by
    have emptied : { before with writeBuf := [], createdAny := createdAny }.Fits limit :=
      ⟨kept.chunkSize, kept.held, kept.pending, Nat.zero_le _, begun⟩
    exact emptied.enqueueChunk ⟨kept.buffered, nofun, first⟩
  unfold OutboundChunks.finalize
  split
  · unfold OutboundChunks.materialiseLast
    split
    · rename_i pending isPending
      split
      · exact fits.enqueuePending isPending true
      · rename_i more
        refine last fits.flushPending _ (fun empty => ?_) fits.flushPending.begun
        rw [flushPending_writeBuf] at empty
        exact absurd empty more
    · split
      · exact fits
      · rename_i fresh
        refine last fits _ (fun empty => ?_) (fun never => ?_)
        · exact fits.begun (Bool.eq_false_iff.mpr fun any => fresh ⟨empty, any⟩)
        · exact fits.begun (Bool.or_eq_false_iff.mp never).1
  · exact fits

theorem Fits.handled (handled : chunks.Handled next) :
    next.Fits limit := by
  refine ⟨handled.size ▸ fits.chunkSize, fun slot listed chunk found => ?_, ?_, ?_, ?_⟩
  · obtain ⟨_, isSlot⟩ := mem_iff_getElem?.mp listed
    obtain ⟨old, wasSlot, change⟩ := Slots.exists_of_forall₂ handled.slots isSlot
    rcases change with same | rfl
    · exact fits.held old (mem_of_getElem? wasSlot) chunk (same ▸ found)
    · cases found
  · rw [handled.pendingFull]
    exact fits.pending
  · rw [handled.writeBuf]
    exact fits.buffered
  · rw [handled.createdAny, handled.nextChunkId]
    exact fits.begun

end Kept

end Fits

end OutboundChunks

/-- A lease that fits, of a chunk that was created. -/
def ChunkWriteLease.Proper (lease : ChunkWriteLease) (created : List Chunk) (limit : Nat) : Prop :=
  lease.toChunk ∈ created ∧ lease.data.length ≤ limit

theorem ChunkWriteLease.Proper.append {lease : ChunkWriteLease} {created : List Chunk} {limit : Nat}
    (proper : lease.Proper created limit) (new : List Chunk) :
    lease.Proper (created ++ new) limit :=
  ⟨mem_append_left new proper.1, proper.2⟩

namespace OutboundHistory

variable {history : OutboundHistory} {created : List Chunk} {limit : Nat}

theorem fits_push (fits : history.ring.chunks.Fits limit) (data : Bytes) :
    (history.apply (.push data)).ring.chunks.Fits limit := by
  rcases history.ring.tryPushAvailable_cases data with ⟨ring, _⟩ | ⟨_, ring, _⟩
  · simpa only [apply, ring] using fits
  · simpa only [apply, ring] using fits.pushAvailable data

theorem fits_sealTurn (fits : history.ring.chunks.Fits limit) :
    (history.apply .sealTurn).ring.chunks.Fits limit := by
  have finalized := fits.finalize
  rcases history.ring.sealTurn_cases with
    ⟨_, turn, _⟩ | ⟨_, ⟨chunks, isFinal, turn⟩ | ⟨chunks, _, isFinal, turn⟩⟩
  · simpa only [apply, turn] using fits
  · rw [isFinal] at finalized
    simpa only [apply, turn] using finalized
  · rw [isFinal] at finalized
    simpa only [apply, turn] using finalized

theorem proper_of_lease (sound : history.Sound created) (fits : history.ring.chunks.Fits limit)
    {callisId : CallisId} {peerMsgId : PeerMessageId} {lease : ChunkWriteLease}
    {ring : OutboundRingBuffer}
    (leased : history.ring.leaseNextChunkForWrite callisId peerMsgId = some (lease, ring)) :
    lease.Proper created limit ∧
      (history.apply (.lease callisId peerMsgId)).ring.chunks.Fits limit := by
  have applied : (history.apply (.lease callisId peerMsgId)).ring = ring := by
    simp only [apply, leased]
  rw [applied]
  unfold OutboundRingBuffer.leaseNextChunkForWrite at leased
  split at leased
  · obtain ⟨_, given, result⟩ := map_eq_some_iff.mp leased
    cases result
    obtain ⟨_, slot, found, holds, _⟩ := OutboundChunks.leaseNextChunkForWrite_eq_some given
    have listed := mem_of_getElem? found
    exact ⟨⟨sound.assembled.held slot listed _ holds, (fits.held slot listed _ holds).1⟩,
      fits.handled (OutboundChunks.leaseNextChunkForWrite_handled given)⟩
  · cases leased

end OutboundHistory

/-- Both rings and the callis between them.  A lease in `held` is about to be written, a frame in
`transit` was written on its callis and not read yet. -/
structure WindowRun where
  sender : OutboundHistory
  held : List ChunkWriteLease
  transit : List ChunkWriteLease
  acks : List PeerMessageId
  receiver : InboundRingBuffer

namespace WindowRun

/-- `loseCallis` is the loss as the sender sees it; what was written on the callis is then read, or
gone with `dropFrames`. -/
inductive Label where
  | push (data : Bytes)
  | sealTurn
  | lease (callisId : CallisId) (peerMsgId : PeerMessageId)
  | write (index : Nat)
  | loseCallis (callisId : CallisId)
  | dropFrames (callisId : CallisId)
  | deliver (index : Nat)
  | takeNext
  | ack (index : Nat)
  | dropAck (index : Nat)
deriving DecidableEq, Repr

def start (size : RingSize) : WindowRun := ⟨.new size, [], [], [], .new size⟩

/-- No frame written earlier on the same callis is still to be read. -/
def isFirst (run : WindowRun) (index : Nat) (frame : ChunkWriteLease) : Bool :=
  (run.transit.take index).all fun earlier => earlier.callisId ≠ frame.callisId

/-- The reader has drained the ring before each insertion, and what is stored is acknowledged. -/
def deliver (run : WindowRun) (index : Nat) (frame : ChunkWriteLease) : Option WindowRun :=
  if run.isFirst index frame ∧ run.receiver.takeNext.isNone then
    let (receiver, answer) := run.receiver.insertChunk frame.toChunk
    some { run with
      receiver := receiver
      transit := run.transit.eraseIdx index
      acks := match answer with
        | .ok _ => run.acks ++ [frame.peerMsgId]
        | .error _ => run.acks }
  else none

def step (run : WindowRun) : Label → Option WindowRun
  | .push data => some { run with sender := run.sender.apply (.push data) }
  | .sealTurn => some { run with sender := run.sender.apply .sealTurn }
  | .lease callisId peerMsgId =>
    (run.sender.ring.leaseNextChunkForWrite callisId peerMsgId).map fun (lease, _) =>
      { run with
        sender := run.sender.apply (.lease callisId peerMsgId)
        held := run.held ++ [lease] }
  | .write index =>
    (run.held[index]?).map fun lease =>
      { run with
        sender := run.sender.apply (.markInflight lease)
        held := run.held.eraseIdx index
        transit := run.transit ++ [lease] }
  | .loseCallis callisId =>
    some { run with
      sender := run.sender.apply (.loseCallis callisId)
      held := run.held.filter fun lease => lease.callisId ≠ callisId }
  | .dropFrames callisId =>
    some { run with transit := run.transit.filter fun frame => frame.callisId ≠ callisId }
  | .deliver index => (run.transit[index]?).bind fun frame => run.deliver index frame
  | .takeNext => run.receiver.takeNext.map fun (_, receiver) => { run with receiver := receiver }
  | .ack index =>
    (run.acks[index]?).map fun peerMsgId =>
      { run with sender := run.sender.apply (.ack peerMsgId), acks := run.acks.eraseIdx index }
  | .dropAck index =>
    (run.acks[index]?).map fun _ => { run with acks := run.acks.eraseIdx index }

def system (size : RingSize) : Machine.System WindowRun Label := .ofStep (· = start size) step

/-- Every lease and frame carries one of the chunks `created`. -/
structure Inv (run : WindowRun) (size : RingSize) (created : List Chunk) : Prop where
  sound : run.sender.Sound created
  fits : run.sender.ring.chunks.Fits size.chunkSize
  held : ∀ lease ∈ run.held, lease.Proper created size.chunkSize
  transit : ∀ frame ∈ run.transit, frame.Proper created size.chunkSize
  contiguous : run.receiver.Contiguous
  receiverSize : run.receiver.size = size

theorem Inv.start (size : RingSize) : (start size).Inv size [] :=
  ⟨.start size, .start size, nofun, nofun, .start size, rfl⟩

section Steps

variable {run next : WindowRun} {size : RingSize} {created : List Chunk}

theorem Inv.sender (inv : run.Inv size created) (op : RingOp)
    (fits : (run.sender.apply op).ring.chunks.Fits size.chunkSize)
    {held transit : List ChunkWriteLease} {acks : List PeerMessageId}
    (holds : ∀ lease ∈ held, lease.Proper created size.chunkSize)
    (carries : ∀ frame ∈ transit, frame.Proper created size.chunkSize) :
    ∃ created, Inv ⟨run.sender.apply op, held, transit, acks, run.receiver⟩ size created := by
  obtain ⟨new, _, sound⟩ := inv.sound.apply op
  exact ⟨created ++ new, sound, fits, fun lease listed => (holds lease listed).append new,
    fun frame listed => (carries frame listed).append new, inv.contiguous, inv.receiverSize⟩

theorem Inv.deliver (inv : run.Inv size created) {index : Nat} {frame : ChunkWriteLease}
    (delivered : run.deliver index frame = some next) : next.Inv size created := by
  obtain ⟨_, ⟨⟩⟩ := ite_none_right_eq_some.mp delivered
  refine ⟨inv.sound, inv.fits, inv.held, ?_, inv.contiguous.insertChunk _, ?_⟩
  · exact fun other listed => inv.transit other (mem_of_mem_eraseIdx listed)
  · exact (InboundRingBuffer.insertChunk_size _ _).trans inv.receiverSize

theorem Inv.step {label : Label} (inv : run.Inv size created)
    (stepped : run.step label = some next) : ∃ created, next.Inv size created := by
  cases label with
  | push data =>
    cases stepped
    exact inv.sender _ (OutboundHistory.fits_push inv.fits data) inv.held inv.transit
  | sealTurn =>
    cases stepped
    exact inv.sender _ (OutboundHistory.fits_sealTurn inv.fits) inv.held inv.transit
  | lease callisId peerMsgId =>
    obtain ⟨⟨lease, _⟩, leased, rfl⟩ := map_eq_some_iff.mp stepped
    obtain ⟨proper, fits⟩ := OutboundHistory.proper_of_lease inv.sound inv.fits leased
    refine inv.sender _ fits (fun other listed => ?_) inv.transit
    rcases mem_append.mp listed with old | new
    · exact inv.held other old
    · obtain rfl := mem_singleton.mp new
      exact proper
  | write index =>
    obtain ⟨lease, found, rfl⟩ := map_eq_some_iff.mp stepped
    refine inv.sender (.markInflight lease)
      (inv.fits.handled (run.sender.ring.chunks.markInflight_handled lease))
      (fun other listed => inv.held other (mem_of_mem_eraseIdx listed)) fun other listed => ?_
    rcases mem_append.mp listed with old | new
    · exact inv.transit other old
    · obtain rfl := mem_singleton.mp new
      exact inv.held _ (mem_of_getElem? found)
  | loseCallis callisId =>
    cases stepped
    exact inv.sender (.loseCallis callisId)
      (inv.fits.handled (run.sender.ring.chunks.markCallisReplayReady_handled callisId))
      (fun other listed => inv.held other (mem_of_mem_filter listed)) inv.transit
  | dropFrames callisId =>
    cases stepped
    exact ⟨created, { inv with
      transit := fun frame listed => inv.transit frame (mem_of_mem_filter listed) }⟩
  | deliver index =>
    obtain ⟨frame, _, delivered⟩ := bind_eq_some_iff.mp stepped
    exact ⟨created, inv.deliver delivered⟩
  | takeNext =>
    obtain ⟨⟨data, _⟩, took, rfl⟩ := map_eq_some_iff.mp stepped
    refine ⟨created, { inv with contiguous := inv.contiguous.takeNext took, receiverSize := ?_ }⟩
    obtain ⟨_, rfl⟩ := InboundRingBuffer.takeNext_eq_some took
    exact inv.receiverSize
  | ack index =>
    obtain ⟨peerMsgId, found, rfl⟩ := map_eq_some_iff.mp stepped
    exact inv.sender (.ack peerMsgId)
      (inv.fits.handled (run.sender.ring.chunks.noteCompletion_handled peerMsgId .ack))
      inv.held inv.transit
  | dropAck index =>
    obtain ⟨peerMsgId, found, rfl⟩ := map_eq_some_iff.mp stepped
    exact ⟨created, { inv with }⟩

end Steps

theorem inv_of_reachable {size : RingSize} {run : WindowRun}
    (reached : (system size).Reachable run) : ∃ created, run.Inv size created := by
  refine @Machine.System.Reachable.invariant _ _ _
    (fun run => ∃ created, run.Inv size created) ?_ ?_ _ reached
  · rintro _ rfl
    exact ⟨[], .start size⟩
  · rintro _ _ _ ⟨created, inv⟩ stepped
    exact inv.step stepped

/-- Whether the chunk numbered `id` was created and has not arrived. -/
def Outstanding (run : WindowRun) (id : Nat) : Prop :=
  id < run.sender.ring.chunks.nextChunkId ∧ run.receiver.nextDeliver ≤ id ∧
    run.receiver.received.lookup id = none

/-- A frame is rejected only for its place: it is beyond the window that starts at the first missing
chunk, or it is the last one and that chunk is missing.  In either case an earlier chunk has not
arrived. -/
theorem rejected_only_ahead_of_missing (size : RingSize) (run : WindowRun)
    (reached : (system size).Reachable run) (frame : ChunkWriteLease) (isSent : frame ∈ run.transit)
    (drained : run.receiver.takeNext = none) (error : AureliaError)
    (rejected : (run.receiver.insertChunk frame.toChunk).2 = .error error) :
    (error.kind = .blobAckWindowExceeded ∧
        saturatingAdd run.receiver.nextExpected size.windowSize ≤ frame.chunkId ∨
      error.kind = .blobStreamMissingChunk ∧ frame.isLast = true ∧
        run.receiver.nextExpected < frame.chunkId) ∧
      (frame.chunkId < u64Max → run.receiver.nextExpected < frame.chunkId ∧
        run.Outstanding run.receiver.nextExpected) := by
  obtain ⟨created, inv⟩ := inv_of_reachable reached
  obtain ⟨sent, fits⟩ := inv.transit frame isSent
  have reasons := inv.contiguous.insertChunk_error drained (inv.receiverSize.symm ▸ fits) rejected
  rw [inv.receiverSize] at reasons
  refine ⟨reasons, fun small => ?_⟩
  have ahead : run.receiver.nextExpected < frame.chunkId := by
    rcases reasons with ⟨_, beyond⟩ | ⟨_, _, early⟩
    · have positive := size.windowSize_pos
      unfold saturatingAdd at beyond
      omega
    · exact early
  refine ⟨ahead, ?_, (inv.contiguous.drained drained).le, inv.contiguous.missing⟩
  -- ids below the largest `u64` are positions in the list of chunks created
  obtain ⟨position, isFrame⟩ := mem_iff_getElem?.mp sent
  have numbered := inv.sound.assembled.numbered position _ isFrame
  have bound := (List.getElem?_eq_some_iff.mp isFrame).1
  have counted := inv.sound.assembled.counted
  omega

def pairWindow : RingSize := ⟨1, 2, Nat.one_pos, Nat.two_pos⟩

def crossing : List Label :=
  [.push [1, 2], .sealTurn, .lease 1 10, .lease 2 11, .write 0, .write 0]

/-- The last chunk overtakes the first one. -/
theorem rejected_only_ahead_of_missing_last :
    ∃ run frame error, (system pairWindow).Reachable run ∧ frame ∈ run.transit ∧
      run.receiver.takeNext = none ∧
      (run.receiver.insertChunk frame.toChunk).2 = .error error ∧
      run.receiver.nextExpected < frame.chunkId := by
  obtain ⟨run, reached, isSent, drained, refused⟩ :
      ∃ run, (system pairWindow).Reachable run ∧ ⟨⟨1, [2], true⟩, 11, 2, 1⟩ ∈ run.transit ∧
        run.receiver.takeNext.isNone = true ∧
        ((run.receiver.insertChunk ⟨1, [2], true⟩).2.toOption).isNone = true :=
    Machine.System.exists_reachable crossing rfl (by decide)
  have drained := isNone_iff_eq_none.mp drained
  cases answer : (run.receiver.insertChunk ⟨1, [2], true⟩).2 with
  | ok outcome =>
    rw [answer] at refused
    cases refused
  | error error =>
    refine ⟨run, ⟨⟨1, [2], true⟩, 11, 2, 1⟩, error, reached, isSent, drained, answer, ?_⟩
    exact ((rejected_only_ahead_of_missing pairWindow run reached _ isSent drained error answer).2
      (by decide)).1

/-- The error with which the frame at an index is rejected when it is read next. -/
def rejection (run : WindowRun) (index : Nat) : Option ErrorId :=
  (run.transit[index]?).bind fun frame =>
    if run.isFirst index frame ∧ run.receiver.takeNext.isNone then
      match (run.receiver.insertChunk frame.toChunk).2 with
      | .ok _ => none
      | .error error => some error.kind
    else none

/-- The second chunk arrives and is acknowledged before the first, which makes room for a third. -/
def overtaking : List Label :=
  [.push [1, 2, 3], .lease 1 10, .lease 2 11, .write 0, .write 0, .deliver 1, .ack 0, .sealTurn,
    .lease 2 12, .write 0]

/-- A last chunk and a chunk beyond the window that overtake the first one are rejected. -/
theorem overtaking_chunks_rejected :
    (∃ run, (system pairWindow).Reachable run ∧
      run.rejection 1 = some .blobStreamMissingChunk) ∧
    ∃ run, (system pairWindow).Reachable run ∧ run.rejection 1 = some .blobAckWindowExceeded :=
  ⟨Machine.System.exists_reachable crossing rfl (by decide),
    Machine.System.exists_reachable overtaking rfl (by decide)⟩

end WindowRun

end AureliaPeering.Ring
