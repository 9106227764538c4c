import AureliaPeering.Ring.OutboundChunks

/-!
What the assembly of an outbound stream preserves.

`created` lists every chunk ever materialised, in the order of materialisation.  The chunk counter
saturates, so a chunk carries its position in that list only below the largest `u64`.
-/

namespace AureliaPeering.Ring

open List Option

namespace OutboundSlot

variable {slot : OutboundSlot}

@[simp]
theorem isLive_empty : empty.isLive = false := rfl

theorem eq_empty_of_isLive (dead : slot.isLive = false) :
    slot = .empty := by
  cases slot <;> first | rfl | simp [isLive, chunk?] at dead

@[simp]
theorem replay_chunk? (callisId : CallisId) (slot : OutboundSlot) :
    (slot.replay callisId).chunk? = slot.chunk? := by
  cases slot with
  | writing | inFlight =>
    simp only [replay]
    split <;> rfl
  | empty | ready | replayReady => rfl

theorem dispatchable_chunk? {replay : Bool} {chunk : Chunk} {seq : Nat}
    (offered : slot.dispatchable replay = some (chunk, seq)) : slot.chunk? = some chunk := by
  cases slot <;> cases replay <;> simp_all [dispatchable, chunk?]

end OutboundSlot

namespace OutboundChunks

/-- The slots hold chunks of `created`, which are numbered by position. -/
structure Materialised (chunks : OutboundChunks) (created : List Chunk) : Prop where
  slots_length : chunks.slots.length = chunks.size.windowSize
  counted : chunks.nextChunkId = min created.length u64Max
  numbered : ∀ index chunk, created[index]? = some chunk → chunk.chunkId = min index u64Max
  held : ∀ slot ∈ chunks.slots, ∀ chunk, slot.chunk? = some chunk → chunk ∈ created

/-- Besides, nothing of `accepted` is missing or out of order, and the window is respected. -/
structure Assembled (chunks : OutboundChunks) (created : List Chunk) (accepted : Bytes) : Prop
    extends chunks.Materialised created where
  window : chunks.liveChunkCount + chunks.pendingCount ≤ chunks.size.windowSize
  buffered : chunks.writeBuf.length ≤ chunks.size.chunkSize
  bytes : created.flatMap Chunk.data ++ (chunks.pendingFull.getD [] ++ chunks.writeBuf) = accepted

/-- Before the last chunk: as soon as a chunk was cut, one stays back to be flagged. -/
structure Unsealed (chunks : OutboundChunks) (created : List Chunk) : Prop where
  unflagged : ∀ chunk ∈ created, chunk.isLast = false
  staged : chunks.createdAny = true → chunks.pendingFull.isSome ∨ chunks.writeBuf ≠ []

/-- After the last chunk: it alone is flagged, and nothing is staged. -/
structure Sealed (chunks : OutboundChunks) (created : List Chunk) : Prop where
  noPending : chunks.pendingFull = none
  noPartial : chunks.writeBuf = []
  flagged : ∃ body last, created = body ++ [last] ∧ last.isLast = true ∧
    ∀ chunk ∈ body, chunk.isLast = false

/-- The slots and their indices, after the chunks `new` were put into empty slots one by one. -/
inductive Enqueued : OutboundChunks → List Chunk → OutboundChunks → Prop where
  | none {before after : OutboundChunks} (slots : after.slots = before.slots)
      (chunkIndex : after.chunkIndex = before.chunkIndex) (ackMap : after.ackMap = before.ackMap) :
      Enqueued before [] after
  | snoc {before middle after : OutboundChunks} {new : List Chunk} {chunk : Chunk} {index : Nat}
      (earlier : Enqueued before new middle) (free : middle.slots[index]? = some .empty)
      (slots : after.slots = middle.slots.set index (.ready chunk 0))
      (chunkIndex : after.chunkIndex = middle.chunkIndex.insert chunk.chunkId index)
      (ackMap : after.ackMap = middle.ackMap) : Enqueued before (new ++ [chunk]) after

variable {after before middle : OutboundChunks}

theorem Enqueued.refl (chunks : OutboundChunks) : chunks.Enqueued [] chunks :=
  .none rfl rfl rfl

theorem Enqueued.congr {new : List Chunk}
    (enqueued : before.Enqueued new middle) (slots : after.slots = middle.slots)
    (chunkIndex : after.chunkIndex = middle.chunkIndex) (ackMap : after.ackMap = middle.ackMap) :
    before.Enqueued new after := by
  cases enqueued with
  | none sameSlots sameIndex sameMap =>
    exact .none (slots.trans sameSlots) (chunkIndex.trans sameIndex) (ackMap.trans sameMap)
  | snoc earlier free setSlots setIndex sameMap =>
    exact .snoc earlier free (slots.trans setSlots) (chunkIndex.trans setIndex)
      (ackMap.trans sameMap)

theorem Enqueued.trans {new more : List Chunk}
    (first : before.Enqueued new middle) (second : middle.Enqueued more after) :
    before.Enqueued (new ++ more) after := by
  induction second with
  | none slots chunkIndex ackMap =>
    rw [append_nil]
    exact first.congr slots chunkIndex ackMap
  | snoc _ free slots chunkIndex ackMap ih =>
    rw [← append_assoc]
    exact .snoc ih free slots chunkIndex ackMap

theorem Enqueued.congr_left {new : List Chunk}
    (enqueued : middle.Enqueued new after) (slots : middle.slots = before.slots)
    (chunkIndex : middle.chunkIndex = before.chunkIndex) (ackMap : middle.ackMap = before.ackMap) :
    before.Enqueued new after :=
  (Enqueued.none slots chunkIndex ackMap).trans enqueued

theorem Assembled.start (size : RingSize) : (new size).Assembled [] [] := by
  refine ⟨⟨by simp [new], by simp [new], by simp, ?_⟩, ?_, by simp [new], by simp [new]⟩
  · intro slot listed chunk found
    obtain rfl := eq_of_mem_replicate listed
    simp [OutboundSlot.chunk?] at found
  · simp [liveChunkCount, pendingCount, new, countP_replicate]

theorem Unsealed.start (size : RingSize) : (new size).Unsealed [] :=
  ⟨by simp, by simp [new]⟩

/-! ### Enqueueing -/

section Enqueue

variable {chunks : OutboundChunks} {created : List Chunk}

@[simp]
theorem enqueueChunk_size (chunks : OutboundChunks) (data : Bytes) (isLast : Bool) :
    (chunks.enqueueChunk data isLast).size = chunks.size := by
  unfold enqueueChunk
  split <;> rfl

@[simp]
theorem enqueueChunk_writeBuf (chunks : OutboundChunks) (data : Bytes) (isLast : Bool) :
    (chunks.enqueueChunk data isLast).writeBuf = chunks.writeBuf := by
  unfold enqueueChunk
  split <;> rfl

@[simp]
theorem enqueueChunk_pendingFull (chunks : OutboundChunks) (data : Bytes) (isLast : Bool) :
    (chunks.enqueueChunk data isLast).pendingFull = chunks.pendingFull := by
  unfold enqueueChunk
  split <;> rfl

theorem nextEmptySlot_of_room (rowed : chunks.slots.length = chunks.size.windowSize)
    (room : chunks.liveChunkCount < chunks.size.windowSize) :
    ∃ index, chunks.nextEmptySlot = some index ∧ chunks.slots[index]? = some .empty := by
  obtain ⟨free, _, found, dead⟩ := Slots.exists_uncounted (rowed.symm ▸ room)
  obtain rfl := OutboundSlot.eq_empty_of_isLive dead
  have bound : free < chunks.size.windowSize := by
    rw [← rowed]
    exact (List.getElem?_eq_some_iff.mp found).1
  have scanned : chunks.nextEmptySlot.isSome := by
    unfold nextEmptySlot
    exact find?_isSome.mpr ⟨free, Slots.mem_circle.mpr bound, by simpa using found⟩
  obtain ⟨index, chosen⟩ := isSome_iff_exists.mp scanned
  refine ⟨index, chosen, ?_⟩
  simpa using find?_some chosen

theorem liveChunkCount_set {index : Nat} {slot : OutboundSlot}
    (free : chunks.slots[index]? = some .empty) (live : slot.isLive = true) :
    (chunks.slots.set index slot).countP OutboundSlot.isLive = chunks.liveChunkCount + 1 := by
  obtain ⟨bound, value⟩ := List.getElem?_eq_some_iff.mp free
  rw [countP_set bound, value]
  simp [live, liveChunkCount]

theorem Materialised.enqueueChunk (inv : chunks.Materialised created)
    (room : chunks.liveChunkCount < chunks.size.windowSize) (data : Bytes) (isLast : Bool) :
    chunks.Enqueued [⟨chunks.nextChunkId, data, isLast⟩] (chunks.enqueueChunk data isLast) ∧
    (chunks.enqueueChunk data isLast).Materialised
      (created ++ [⟨chunks.nextChunkId, data, isLast⟩]) ∧
    (chunks.enqueueChunk data isLast).liveChunkCount = chunks.liveChunkCount + 1 := by
  obtain ⟨free, chosen, empty⟩ := nextEmptySlot_of_room inv.slots_length room
  have enqueued : chunks.enqueueChunk data isLast = { chunks with
      nextChunkId := saturatingAdd chunks.nextChunkId 1
      createdAny := true
      slots := chunks.slots.set free (.ready ⟨chunks.nextChunkId, data, isLast⟩ 0)
      chunkIndex := chunks.chunkIndex.insert chunks.nextChunkId free
      writeCursor := (free + 1) % chunks.size.windowSize } := by
    simp [OutboundChunks.enqueueChunk, chosen]
  rw [enqueued]
  refine ⟨.snoc (.refl chunks) empty rfl rfl rfl,
    ⟨by simpa using inv.slots_length, ?_, ?_, ?_⟩, liveChunkCount_set empty rfl⟩
  · rw [length_append, inv.counted]
    simp only [saturatingAdd, length_singleton]
    omega
  · intro index chunk found
    rcases Slots.getElem?_concat_eq_some.mp found with old | ⟨rfl, rfl⟩
    · exact inv.numbered index chunk old
    · exact inv.counted
  · intro slot listed chunk holds
    rcases mem_or_eq_of_mem_set listed with old | rfl
    · exact mem_append_left _ (inv.held slot old chunk holds)
    · cases holds
      simp

end Enqueue

/-! ### Pushing -/

section Push

variable {chunks : OutboundChunks} {created : List Chunk} {accepted : Bytes}

theorem Materialised.restage (inv : chunks.Materialised created) (writeBuf : Bytes)
    (pendingFull : Option Bytes) (createdAny : Bool) :
    { chunks with writeBuf := writeBuf, pendingFull := pendingFull, createdAny := createdAny
      }.Materialised created :=
  ⟨inv.slots_length, inv.counted, inv.numbered, inv.held⟩

theorem Assembled.fill (inv : chunks.Assembled created accepted) (data : Bytes) :
    ∃ taken, data = taken ++ (chunks.fill data).2 ∧
      (chunks.fill data).1.Assembled created (accepted ++ taken) := by
  refine ⟨data.take (chunks.size.chunkSize - chunks.writeBuf.length),
    (take_append_drop _ data).symm, inv.toMaterialised.restage _ _ _, inv.window, ?_, ?_⟩
  · have buffered := inv.buffered
    simp only [OutboundChunks.fill, length_append, length_take]
    omega
  · simp [OutboundChunks.fill, ← inv.bytes]

theorem Unsealed.fill (unsealed : chunks.Unsealed created) (data : Bytes) :
    (chunks.fill data).1.Unsealed created := by
  refine ⟨unsealed.unflagged, fun cut => (unsealed.staged cut).imp_right fun partially => ?_⟩
  simp [OutboundChunks.fill, partially]

@[simp]
theorem flushPending_size (chunks : OutboundChunks) :
    chunks.flushPending.1.size = chunks.size := by
  unfold flushPending
  split <;> simp

@[simp]
theorem flushPending_writeBuf (chunks : OutboundChunks) :
    chunks.flushPending.1.writeBuf = chunks.writeBuf := by
  unfold flushPending
  split <;> simp

@[simp]
theorem splitFull_size (chunks : OutboundChunks) : chunks.splitFull.1.size = chunks.size :=
  chunks.cutFull.1.flushPending_size

@[simp]
theorem splitFull_writeBuf (chunks : OutboundChunks) :
    chunks.splitFull.1.writeBuf = chunks.writeBuf.drop chunks.size.chunkSize :=
  chunks.cutFull.1.flushPending_writeBuf

theorem Assembled.flushPending (inv : chunks.Assembled created accepted) :
    ∃ new : List Chunk, chunks.Enqueued new chunks.flushPending.1 ∧
      chunks.flushPending.1.Assembled (created ++ new) accepted ∧
      chunks.flushPending.1.pendingFull = none ∧
      chunks.flushPending.1.liveChunkCount = chunks.liveChunkCount + chunks.pendingCount ∧
      ∀ chunk ∈ new, chunk.isLast = false := by
  cases pending : chunks.pendingFull with
  | none =>
    refine ⟨[], ?_⟩
    simpa [OutboundChunks.flushPending, pending, pendingCount] using ⟨Enqueued.refl chunks, inv⟩
  | some data =>
    have window := inv.window
    simp only [pendingCount, pending, isSome_some, if_true] at window
    obtain ⟨enqueued, materialised, live⟩ :=
      (inv.toMaterialised.restage chunks.writeBuf none chunks.createdAny).enqueueChunk
        (show chunks.liveChunkCount < chunks.size.windowSize by omega) data false
    refine ⟨[⟨chunks.nextChunkId, data, false⟩], ?_, ⟨?_, ?_, ?_, ?_⟩, ?_⟩
    · have enqueued : chunks.Enqueued _ _ := enqueued.congr_left rfl rfl rfl
      simpa [OutboundChunks.flushPending, pending] using enqueued
    · simpa [OutboundChunks.flushPending, pending] using materialised
    · simp only [OutboundChunks.flushPending, pending, live, pendingCount,
        enqueueChunk_pendingFull, enqueueChunk_size]
      simpa [liveChunkCount] using window
    · simpa [OutboundChunks.flushPending, pending] using inv.buffered
    · simp [OutboundChunks.flushPending, pending, ← inv.bytes]
    · have counted : _ = chunks.liveChunkCount + 1 := live
      simpa [OutboundChunks.flushPending, pending, pendingCount] using counted

theorem Assembled.splitFull (inv : chunks.Assembled created accepted)
    (room : chunks.hasWindowCapacityFor 1) :
    ∃ new : List Chunk, chunks.Enqueued new chunks.splitFull.1 ∧
      chunks.splitFull.1.Assembled (created ++ new) accepted ∧
      chunks.splitFull.1.pendingFull.isSome ∧ ∀ chunk ∈ new, chunk.isLast = false := by
  have room : chunks.liveChunkCount + chunks.pendingCount + 1 ≤ chunks.size.windowSize := by
    simpa [hasWindowCapacityFor] using room
  have cut : chunks.cutFull.1.Assembled created (created.flatMap Chunk.data ++
      (chunks.pendingFull.getD [] ++ chunks.writeBuf.drop chunks.size.chunkSize)) :=
    ⟨inv.toMaterialised.restage _ _ _, inv.window,
      Nat.le_trans (drop_sublist _ _).length_le inv.buffered, rfl⟩
  obtain ⟨new, enqueued, flushed, empty, live, unflagged⟩ := cut.flushPending
  have live : chunks.cutFull.1.flushPending.1.liveChunkCount =
    chunks.liveChunkCount + chunks.pendingCount := live
  refine ⟨new, ?_, ⟨flushed.toMaterialised.restage _ _ _, ?_, flushed.buffered, ?_⟩, rfl,
    unflagged⟩
  · have enqueued : chunks.Enqueued new _ := enqueued.congr_left rfl rfl rfl
    exact enqueued.congr rfl rfl rfl
  · rw [splitFull_size]
    show chunks.cutFull.1.flushPending.1.liveChunkCount + 1 ≤ chunks.size.windowSize
    rw [live]
    exact room
  · have emptied := flushed.bytes
    rw [empty, flushPending_writeBuf] at emptied
    have drained : (created ++ new).flatMap Chunk.data =
        created.flatMap Chunk.data ++ chunks.pendingFull.getD [] := by
      simpa [cutFull, ← append_assoc] using emptied
    rw [splitFull_writeBuf, drained, ← inv.bytes]
    simp [OutboundChunks.splitFull, cutFull]

theorem Unsealed.extend {next : OutboundChunks} {new : List Chunk}
    (unsealed : chunks.Unsealed created) (unflagged : ∀ chunk ∈ new, chunk.isLast = false)
    (staged : next.pendingFull.isSome ∨ next.writeBuf ≠ []) : next.Unsealed (created ++ new) := by
  refine ⟨?_, fun _ => staged⟩
  intro chunk listed
  rcases mem_append.mp listed with old | added
  · exact unsealed.unflagged chunk old
  · exact unflagged chunk added

/-- The loop takes a first part of `rest` and materialises chunks in order. -/
theorem Assembled.pushFull (fuel : Nat) (rest : Bytes) (notify : Bool)
    (inv : chunks.Assembled created accepted) (unsealed : chunks.Unsealed created) :
    ∃ new taken, rest = taken ++ (OutboundChunks.pushFull fuel chunks rest notify).2.1 ∧
      chunks.Enqueued new (OutboundChunks.pushFull fuel chunks rest notify).1 ∧
      (OutboundChunks.pushFull fuel chunks rest notify).1.Assembled (created ++ new)
        (accepted ++ taken) ∧
      (OutboundChunks.pushFull fuel chunks rest notify).1.Unsealed (created ++ new) := by
  induction fuel generalizing chunks created accepted rest notify with
  | zero =>
    simp only [OutboundChunks.pushFull]
    exact ⟨[], [], rfl, .refl chunks, by simpa using inv, by simpa using unsealed⟩
  | succ fuel ih =>
    simp only [OutboundChunks.pushFull]
    split
    · exact ⟨[], [], rfl, .refl chunks, by simpa using inv, by simpa using unsealed⟩
    · rename_i turn
      push Not at turn
      obtain ⟨new, enqueued, split, pending, unflagged⟩ := inv.splitFull turn.2
      have unsealed := unsealed.extend unflagged (.inl pending)
      split
      · exact ⟨new, [], rfl, enqueued, by simpa using split, unsealed⟩
      · obtain ⟨taken, cover, filled⟩ := split.fill rest
        obtain ⟨more, later, remaining, next, assembled, still⟩ := ih
          (chunks.splitFull.1.fill rest).2 (notify || chunks.splitFull.2) filled
          (unsealed.fill rest)
        refine ⟨new ++ more, taken ++ later, ?_, ?_, ?_, ?_⟩
        · rw [append_assoc, ← remaining]
          exact cover
        · exact enqueued.trans (next.congr_left rfl rfl rfl)
        · simpa [append_assoc] using assembled
        · simpa [append_assoc] using still

theorem Assembled.pushAvailable (inv : chunks.Assembled created accepted)
    (unsealed : chunks.Unsealed created) (data : Bytes) :
    ∃ new, chunks.Enqueued new (chunks.pushAvailable data).1 ∧
      (chunks.pushAvailable data).1.Assembled (created ++ new)
        (accepted ++ data.take (chunks.pushAvailable data).2.1) ∧
      (chunks.pushAvailable data).1.Unsealed (created ++ new) := by
  obtain ⟨first, cover, filled⟩ := inv.fill data
  obtain ⟨new, second, remaining, enqueued, pushed, still⟩ := filled.pushFull
    ((chunks.fill data).2.length + 1) (chunks.fill data).2 false (unsealed.fill data)
  generalize result : OutboundChunks.pushFull ((chunks.fill data).2.length + 1) (chunks.fill data).1
    (chunks.fill data).2 false = loop at remaining enqueued pushed still
  have taken : data.take (data.length - loop.2.1.length) = first ++ second := by
    rw [remaining, ← append_assoc] at cover
    rw [cover, length_append, Nat.add_sub_cancel]
    exact take_left
  simp only [OutboundChunks.pushAvailable, result]
  rw [taken, ← append_assoc]
  have enqueued : chunks.Enqueued new loop.1 := enqueued.congr_left rfl rfl rfl
  split
  · rename_i both
    obtain ⟨more, next, flushed, _, _, unflagged⟩ := pushed.flushPending
    refine ⟨new ++ more, enqueued.trans next, by simpa [append_assoc] using flushed, ?_⟩
    rw [← append_assoc]
    exact still.extend unflagged (.inr (by simpa using both.2))
  · exact ⟨new, enqueued, pushed, still⟩

end Push

/-! ### Sealing -/

section Finalize

variable {chunks : OutboundChunks} {created : List Chunk} {accepted : Bytes}

/-- With nothing else staged, the chunk flagged as the last one completes the stream. -/
theorem Materialised.enqueueLast (inv : chunks.Materialised created)
    (room : chunks.liveChunkCount < chunks.size.windowSize) (data : Bytes)
    (noPending : chunks.pendingFull = none) (noPartial : chunks.writeBuf = [])
    (bytes : created.flatMap Chunk.data ++ data = accepted)
    (unflagged : ∀ chunk ∈ created, chunk.isLast = false) :
    ∃ last, chunks.Enqueued [last] (chunks.enqueueChunk data true) ∧
      (chunks.enqueueChunk data true).Assembled (created ++ [last]) accepted ∧
      (chunks.enqueueChunk data true).Sealed (created ++ [last]) := by
  obtain ⟨enqueued, materialised, live⟩ := inv.enqueueChunk room data true
  refine ⟨_, enqueued, ⟨materialised, ?_, by simp [noPartial], ?_⟩, ?_⟩
  · simpa [live, pendingCount, noPending, Nat.succ_le_iff] using room
  · simpa [noPending, noPartial] using bytes
  · exact ⟨by simpa using noPending, by simpa using noPartial, created, _, rfl, rfl, unflagged⟩

theorem Assembled.materialiseLast (inv : chunks.Assembled created accepted)
    (unsealed : chunks.Unsealed created)
    (room : chunks.liveChunkCount + chunks.pendingCount + chunks.needsExtra ≤
      chunks.size.windowSize) :
    ∃ new, chunks.Enqueued new chunks.materialiseLast ∧
      chunks.materialiseLast.Assembled (created ++ new) accepted ∧
      chunks.materialiseLast.Sealed (created ++ new) := by
  have staging := inv.bytes
  unfold OutboundChunks.materialiseLast
  cases pending : chunks.pendingFull with
  | some data =>
    rw [pending, getD_some] at staging
    have held : chunks.pendingCount = 1 := by simp [pendingCount, pending]
    by_cases noPartial : chunks.writeBuf = []
    · have free : chunks.liveChunkCount < chunks.size.windowSize := by omega
      obtain ⟨last, enqueued, sealed⟩ := (inv.toMaterialised.restage chunks.writeBuf none
        chunks.createdAny).enqueueLast free data rfl noPartial
          (by simpa [noPartial] using staging) unsealed.unflagged
      simp only [if_pos noPartial]
      exact ⟨[last], enqueued.congr_left rfl rfl rfl, sealed⟩
    · have extra : chunks.needsExtra = 1 := by
        simp [needsExtra, pending, isEmpty_eq_false_iff.mpr noPartial]
      obtain ⟨new, enqueued, flushed, empty, live, unflagged⟩ := inv.flushPending
      have bytes := flushed.bytes
      rw [empty] at bytes
      have unflagged : ∀ chunk ∈ created ++ new, chunk.isLast = false := fun chunk listed =>
        (mem_append.mp listed).elim (unsealed.unflagged chunk) (unflagged chunk)
      obtain ⟨last, next, sealed⟩ := (flushed.toMaterialised.restage []
        chunks.flushPending.1.pendingFull chunks.flushPending.1.createdAny).enqueueLast
          (show chunks.flushPending.1.liveChunkCount < _ by rw [live, flushPending_size]; omega)
          chunks.flushPending.1.writeBuf empty rfl bytes unflagged
      simp only [if_neg noPartial]
      refine ⟨new ++ [last], enqueued.trans (next.congr_left rfl rfl rfl), ?_⟩
      rw [← append_assoc]
      exact sealed
  | none =>
    -- had a chunk been cut before, one would have stayed back
    have fresh : ¬ (chunks.writeBuf = [] ∧ chunks.createdAny = true) := by
      rintro ⟨noPartial, cut⟩
      simpa [pending, noPartial] using unsealed.staged cut
    have extra : chunks.needsExtra = 1 := by simp [needsExtra, pending]
    have free : chunks.liveChunkCount < chunks.size.windowSize := by omega
    obtain ⟨last, enqueued, sealed⟩ := (inv.toMaterialised.restage [] none
      (chunks.createdAny || !chunks.writeBuf.isEmpty)).enqueueLast free chunks.writeBuf rfl rfl
        (by simpa [pending] using staging) unsealed.unflagged
    simp only [if_neg fresh]
    exact ⟨[last], enqueued.congr_left rfl rfl rfl, sealed⟩

/-- A successful `finalize` flags the last chunk and leaves nothing behind; an unsuccessful one
changes nothing. -/
theorem Assembled.finalize (inv : chunks.Assembled created accepted)
    (unsealed : chunks.Unsealed created) :
    chunks.finalize = (chunks, .waitForCapacity) ∨
    ∃ next new, chunks.finalize = (next, .finalized true) ∧ chunks.Enqueued new next ∧
      next.Assembled (created ++ new) accepted ∧ next.Sealed (created ++ new) := by
  unfold OutboundChunks.finalize
  split
  · rename_i capacity
    obtain ⟨new, sealed⟩ := inv.materialiseLast unsealed
      (by simpa [hasWindowCapacityFor] using capacity)
    exact .inr ⟨_, new, rfl, sealed⟩
  · exact .inl rfl

end Finalize

/-! ### What pushing and sealing leave alone -/

/-- A property that depends neither on what is staged nor on what is put into empty slots. -/
structure Stable (Property : OutboundChunks → Prop) : Prop where
  restage : ∀ {chunks : OutboundChunks} writeBuf pendingFull createdAny, Property chunks →
    Property { chunks with writeBuf, pendingFull, createdAny }
  enqueueChunk : ∀ {chunks : OutboundChunks} data isLast, Property chunks →
    Property (chunks.enqueueChunk data isLast)

section Stable

variable {Property : OutboundChunks → Prop} {chunks : OutboundChunks}
variable (stable : Stable Property)

include stable

theorem Stable.flushPending (holds : Property chunks) : Property chunks.flushPending.1 := by
  unfold OutboundChunks.flushPending
  split
  · exact holds
  · exact stable.enqueueChunk _ _ (stable.restage _ _ _ holds)

theorem Stable.splitFull (holds : Property chunks) : Property chunks.splitFull.1 := by
  have cut : Property chunks.cutFull.1 := stable.restage _ _ _ holds
  exact stable.restage _ _ _ (stable.flushPending cut)

theorem Stable.pushFull (holds : Property chunks) (fuel : Nat) (rest : Bytes) (notify : Bool) :
    Property (OutboundChunks.pushFull fuel chunks rest notify).1 := by
  induction fuel generalizing chunks rest notify with
  | zero => exact holds
  | succ fuel ih =>
    rw [OutboundChunks.pushFull]
    split
    · exact holds
    · have split := stable.splitFull holds
      dsimp only
      split
      · exact split
      · exact ih (stable.restage _ _ _ split) _ _

theorem Stable.pushAvailable (holds : Property chunks) (data : Bytes) :
    Property (chunks.pushAvailable data).1 := by
  have filled : Property (chunks.fill data).1 := stable.restage _ _ _ holds
  have pushed := stable.pushFull filled ((chunks.fill data).2.length + 1) (chunks.fill data).2 false
  simp only [OutboundChunks.pushAvailable]
  split
  · exact stable.flushPending pushed
  · exact pushed

theorem Stable.finalize (holds : Property chunks) : Property chunks.finalize.1 := by
  unfold OutboundChunks.finalize
  split
  · unfold OutboundChunks.materialiseLast
    split
    · split
      · exact stable.enqueueChunk _ _ (stable.restage _ _ _ holds)
      · exact stable.enqueueChunk _ _ (stable.restage _ _ _ (stable.flushPending holds))
    · split
      · exact holds
      · exact stable.enqueueChunk _ _ (stable.restage _ _ _ holds)
  · exact holds

end Stable

/-! ### Operations on the slots -/

/-- A slot keeps its chunk or loses it. -/
def KeepsOrDrops (old new : OutboundSlot) : Prop :=
  new.chunk? = old.chunk? ∨ new = .empty

/-- Leases, write marks, callis losses and completions leave the staging area alone and only pass
chunks on. -/
structure Handled (before after : OutboundChunks) : Prop where
  size : after.size = before.size
  nextChunkId : after.nextChunkId = before.nextChunkId
  writeBuf : after.writeBuf = before.writeBuf
  pendingFull : after.pendingFull = before.pendingFull
  createdAny : after.createdAny = before.createdAny
  slots : List.Forall₂ KeepsOrDrops before.slots after.slots

section Handled

variable {chunks next : OutboundChunks} {created : List Chunk} {accepted : Bytes}
variable {slots : List OutboundSlot} {entries : List (Nat × Nat)} {replay : Bool}
  {callisId : CallisId} {peerMsgId : PeerMessageId} {lease : ChunkWriteLease}

theorem Handled.refl (chunks : OutboundChunks) : chunks.Handled chunks :=
  ⟨rfl, rfl, rfl, rfl, rfl, forall₂_same.mpr fun _ _ => .inl rfl⟩

theorem forall₂_keepsOrDrops_set {index : Nat}
    {old new : OutboundSlot} (found : slots[index]? = some old) (change : KeepsOrDrops old new) :
    List.Forall₂ KeepsOrDrops slots (slots.set index new) :=
  Slots.forall₂_set (fun _ => .inl rfl) found change

theorem minByChunkId_eq_none (none : minByChunkId entries = none) :
    entries = [] := by
  cases entries with
  | nil => rfl
  | cons first rest =>
    unfold minByChunkId at none
    split at none
    · cases none
    · split at none <;> cases none

theorem minByChunkId_eq_some {least : Nat × Nat}
    (found : minByChunkId entries = some least) :
    least ∈ entries ∧ ∀ entry ∈ entries, least.2 ≤ entry.2 := by
  induction entries generalizing least with
  | nil => cases found
  | cons first rest ih =>
    unfold minByChunkId at found
    cases later : minByChunkId rest with
    | none =>
      simp only [later] at found
      cases found
      simp [minByChunkId_eq_none later]
    | some other =>
      obtain ⟨listed, smallest⟩ := ih later
      simp only [later] at found
      split at found
      · rename_i smaller
        cases found
        refine ⟨mem_cons_of_mem _ listed, fun entry isEntry => ?_⟩
        rcases mem_cons.mp isEntry with rfl | old
        · exact smaller.le
        · exact smallest entry old
      · rename_i larger
        cases found
        refine ⟨mem_cons_self, fun entry isEntry => ?_⟩
        rcases mem_cons.mp isEntry with rfl | old
        · exact le_rfl
        · exact (Nat.le_of_not_lt larger).trans (smallest entry old)

theorem mem_entries {entry : Nat × Nat} :
    (entry ∈ slots.zipIdx.filterMap fun (slot, index) =>
      (slot.dispatchable replay).map fun entry => (index, entry.1.chunkId)) ↔
    ∃ slot offered, slots[entry.1]? = some slot ∧ slot.dispatchable replay = some offered ∧
      offered.1.chunkId = entry.2 := by
  simp only [mem_filterMap, map_eq_some_iff, Prod.exists, mem_zipIdx_iff_getElem?]
  constructor
  · rintro ⟨slot, index, found, chunk, seq, offered, rfl⟩
    exact ⟨slot, chunk, seq, found, offered, rfl⟩
  · rintro ⟨slot, chunk, seq, found, offered, same⟩
    exact ⟨slot, entry.1, found, chunk, seq, offered, Prod.ext rfl same⟩

theorem leaseMatching_eq_some
    (leased : chunks.leaseMatching replay callisId peerMsgId = some (lease, next)) :
    (∃ index slot seq, chunks.slots[index]? = some slot ∧
      slot.dispatchable replay = some (lease.toChunk, seq) ∧
      lease = ⟨lease.toChunk, peerMsgId, callisId, saturatingAdd seq 1⟩ ∧
      next = { chunks with
        slots := chunks.slots.set index
          (.writing lease.toChunk peerMsgId callisId lease.slotSeq) }) ∧
    ∀ slot ∈ chunks.slots, ∀ chunk seq, slot.dispatchable replay = some (chunk, seq) →
      lease.chunkId ≤ chunk.chunkId := by
  simp only [leaseMatching, bind, bind_eq_some_iff] at leased
  obtain ⟨least, chosen, slot, found, ⟨chunk, seq⟩, offered, result⟩ := leased
  cases result
  obtain ⟨listed, smallest⟩ := minByChunkId_eq_some chosen
  refine ⟨⟨least.1, slot, seq, found, offered, rfl, rfl⟩, fun other isSlot held number ready => ?_⟩
  obtain ⟨index, isOther⟩ := mem_iff_getElem?.mp isSlot
  obtain ⟨_, _, isSame, isEntry, id⟩ := mem_entries.mp listed
  cases found.symm.trans isSame
  cases offered.symm.trans isEntry
  rw [show chunk.chunkId = least.2 from id]
  exact smallest (index, held.chunkId) (mem_entries.mpr ⟨other, _, isOther, ready, rfl⟩)

theorem leaseMatching_eq_none (none : chunks.leaseMatching replay callisId peerMsgId = none) :
    ∀ slot ∈ chunks.slots, slot.dispatchable replay = .none := by
  intro slot listed
  by_contra some
  obtain ⟨entry, offered⟩ := ne_none_iff_exists'.mp some
  obtain ⟨index, found⟩ := mem_iff_getElem?.mp listed
  have isEntry := mem_entries.mpr ⟨slot, entry, found, offered, Eq.refl (index, entry.1.chunkId).2⟩
  cases chosen : minByChunkId (chunks.slots.zipIdx.filterMap fun (slot, index) =>
      (slot.dispatchable replay).map fun entry => (index, entry.1.chunkId)) with
  | none =>
    rw [minByChunkId_eq_none chosen] at isEntry
    cases isEntry
  | some least =>
    obtain ⟨_, _, isSame, isOffered, _⟩ := mem_entries.mp (minByChunkId_eq_some chosen).1
    simp [leaseMatching, chosen, isSame, isOffered] at none

section leaseNextChunkForWrite

variable (leased : chunks.leaseNextChunkForWrite callisId peerMsgId = some (lease, next))

include leased

/-- What a lease takes: a chunk to be written again, or a fresh one if there is none. -/
theorem leaseNextChunkForWrite_cases :
    ∃ replay, chunks.leaseMatching replay callisId peerMsgId = some (lease, next) ∧
      (replay = false → ∀ slot ∈ chunks.slots, slot.dispatchable true = none) := by
  unfold leaseNextChunkForWrite at leased
  split at leased
  · rename_i first
    exact ⟨true, first.trans leased, nofun⟩
  · rename_i none
    exact ⟨false, leased, fun _ => leaseMatching_eq_none none⟩

theorem leaseNextChunkForWrite_eq_some :
    ∃ index slot, chunks.slots[index]? = some slot ∧ slot.chunk? = some lease.toChunk ∧
      (∀ chunk p c seq, slot ≠ .inFlight chunk p c seq) ∧
      next = { chunks with
        slots := chunks.slots.set index
          (.writing lease.toChunk peerMsgId callisId lease.slotSeq) } := by
  obtain ⟨_, leased, _⟩ := leaseNextChunkForWrite_cases leased
  obtain ⟨⟨index, slot, seq, found, offered, _, rfl⟩, _⟩ := leaseMatching_eq_some leased
  refine ⟨index, slot, found, OutboundSlot.dispatchable_chunk? offered, ?_, rfl⟩
  rintro _ _ _ _ rfl
  simp [OutboundSlot.dispatchable] at offered

theorem leaseNextChunkForWrite_handled :
    chunks.Handled next := by
  obtain ⟨_, _, found, holds, _, rfl⟩ := leaseNextChunkForWrite_eq_some leased
  exact ⟨rfl, rfl, rfl, rfl, rfl, forall₂_keepsOrDrops_set found (.inl holds.symm)⟩

end leaseNextChunkForWrite

/-- A write mark either does nothing, or moves the leased attempt from writing to in flight. -/
theorem markInflight_cases (chunks : OutboundChunks) (lease : ChunkWriteLease) :
    chunks.markInflight lease = (chunks, false) ∨
    ∃ index chunk, chunks.chunkIndex.lookup lease.chunkId = some index ∧
      chunks.slots[index]? = some (.writing chunk lease.peerMsgId lease.callisId lease.slotSeq) ∧
      chunk.chunkId = lease.chunkId ∧
      chunks.markInflight lease = ({ chunks with
        slots := chunks.slots.set index
          (.inFlight chunk lease.peerMsgId lease.callisId lease.slotSeq)
        ackMap := chunks.ackMap.insert lease.peerMsgId lease.chunkId
        inflight := saturatingAdd chunks.inflight 1 }, true) := by
  unfold markInflight
  split
  · exact .inl rfl
  · rename_i index indexed
    split
    · rename_i chunk peerMsgId callisId seq found
      split
      · rename_i same
        obtain ⟨id, rfl, rfl, rfl, _⟩ := same
        exact .inr ⟨index, chunk, indexed, found, id, rfl⟩
      · exact .inl rfl
    · exact .inl rfl

theorem markInflight_handled (chunks : OutboundChunks) (lease : ChunkWriteLease) :
    chunks.Handled (chunks.markInflight lease).1 := by
  rcases chunks.markInflight_cases lease with unchanged | ⟨_, _, _, found, _, marked⟩
  · rw [unchanged]
    exact .refl chunks
  · rw [marked]
    exact ⟨rfl, rfl, rfl, rfl, rfl, forall₂_keepsOrDrops_set found (.inl rfl)⟩

theorem markCallisReplayReady_handled (chunks : OutboundChunks) (callisId : CallisId) :
    chunks.Handled (chunks.markCallisReplayReady callisId).1 := by
  refine ⟨rfl, rfl, rfl, rfl, rfl, ?_⟩
  exact forall₂_map_right_iff.mpr
    (forall₂_same.mpr fun slot _ => .inl (slot.replay_chunk? callisId))

theorem noteCompletion_handled (chunks : OutboundChunks) (peerMsgId : PeerMessageId)
    (completion : ChunkCompletion) :
    chunks.Handled (chunks.noteCompletion peerMsgId completion).1 := by
  have same := (Handled.refl chunks).slots
  unfold noteCompletion
  split
  · exact .refl chunks
  · dsimp only
    split
    · exact ⟨rfl, rfl, rfl, rfl, rfl, same⟩
    · split
      · exact ⟨rfl, rfl, rfl, rfl, rfl, same⟩
      · rename_i found
        exact ⟨rfl, rfl, rfl, rfl, rfl, forall₂_keepsOrDrops_set found (.inr rfl)⟩

theorem Handled.live (handled : chunks.Handled next) :
    next.liveChunkCount ≤ chunks.liveChunkCount := by
  refine Slots.countP_le_of_forall₂ ?_ handled.slots
  rintro _ _ (kept | rfl) live
  · simpa [OutboundSlot.isLive, kept] using live
  · simp at live

theorem Assembled.handled (inv : chunks.Assembled created accepted)
    (handled : chunks.Handled next) : next.Assembled created accepted := by
  have live := handled.live
  have window := inv.window
  refine ⟨⟨?_, ?_, inv.numbered, ?_⟩, ?_, ?_, ?_⟩
  · rw [← handled.slots.length_eq, handled.size]
    exact inv.slots_length
  · rw [handled.nextChunkId]
    exact inv.counted
  · intro slot listed chunk holds
    obtain ⟨_, found⟩ := mem_iff_getElem?.mp listed
    obtain ⟨old, before, kept | rfl⟩ := Slots.exists_of_forall₂ handled.slots found
    · exact inv.held old (mem_of_getElem? before) chunk (kept ▸ holds)
    · simp [OutboundSlot.chunk?] at holds
  · rw [handled.size, show next.pendingCount = chunks.pendingCount by
      simp [pendingCount, handled.pendingFull]]
    omega
  · rw [handled.writeBuf, handled.size]
    exact inv.buffered
  · rw [handled.pendingFull, handled.writeBuf]
    exact inv.bytes

theorem Unsealed.handled (unsealed : chunks.Unsealed created) (handled : chunks.Handled next) :
    next.Unsealed created := by
  refine ⟨unsealed.unflagged, ?_⟩
  rw [handled.createdAny, handled.pendingFull, handled.writeBuf]
  exact unsealed.staged

theorem Sealed.handled (sealed : chunks.Sealed created) (handled : chunks.Handled next) :
    next.Sealed created :=
  ⟨handled.pendingFull.trans sealed.noPending, handled.writeBuf.trans sealed.noPartial,
    sealed.flagged⟩

end Handled

end OutboundChunks

end AureliaPeering.Ring
