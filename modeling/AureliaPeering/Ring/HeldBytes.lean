import AureliaPeering.Ring.Windows
import Mathlib.Algebra.Order.BigOperators.Group.List
import Mathlib.Algebra.Order.Ring.Nat

/-!
The payload bytes that a ring holds.

An inbound ring holds at most its window.  An outbound ring holds at most its window and one chunk
more: the partial write buffer is filled beside the window.
-/

namespace AureliaPeering.Ring

open Collections List

def OutboundSlot.heldBytes (slot : OutboundSlot) : Nat :=
  match slot.chunk? with
  | some chunk => chunk.data.length
  | none => 0

namespace OutboundChunks

def slotBytes (slots : List OutboundSlot) : Nat := (slots.map OutboundSlot.heldBytes).sum

/-- Live chunks, pending full chunk and partial write buffer. -/
def heldBytes (chunks : OutboundChunks) : Nat :=
  slotBytes chunks.slots + (chunks.pendingFull.getD []).length + chunks.writeBuf.length

variable {chunks next : OutboundChunks} {limit : Nat}

theorem slotBytes_le {slots : List OutboundSlot}
    (held : ∀ slot ∈ slots, ∀ chunk, slot.chunk? = some chunk → chunk.data.length ≤ limit) :
    slotBytes slots ≤ slots.countP OutboundSlot.isLive * limit := by
  induction slots with
  | nil => exact Nat.zero_le _
  | cons slot slots ih =>
    have rest := ih fun other listed => held other (mem_cons_of_mem _ listed)
    have first : slot.heldBytes ≤ (if slot.isLive then 1 else 0) * limit := by
      unfold OutboundSlot.heldBytes OutboundSlot.isLive
      cases found : slot.chunk? with
      | none => exact Nat.zero_le _
      | some chunk =>
        rw [Option.isSome_some, if_pos rfl, Nat.one_mul]
        exact held slot mem_cons_self chunk found
    rw [slotBytes, map_cons, sum_cons, countP_cons, Nat.add_mul]
    rw [slotBytes] at rest
    omega

theorem Fits.heldBytes_le (fits : chunks.Fits limit)
    (window : chunks.liveChunkCount + chunks.pendingCount ≤ chunks.size.windowSize) :
    chunks.heldBytes ≤ (chunks.size.windowSize + 1) * limit := by
  have slots := slotBytes_le fun slot listed chunk holds => (fits.held slot listed chunk holds).1
  have pending : (chunks.pendingFull.getD []).length ≤ chunks.pendingCount * limit := by
    unfold pendingCount
    cases isPending : chunks.pendingFull with
    | none => exact Nat.zero_le _
    | some data =>
      rw [Option.isSome_some, if_pos rfl, Nat.one_mul]
      exact (fits.pending data isPending).le
  have buffered := fits.buffered
  calc chunks.heldBytes
      ≤ chunks.liveChunkCount * limit + chunks.pendingCount * limit + limit :=
        Nat.add_le_add (Nat.add_le_add slots pending) buffered
    _ = (chunks.liveChunkCount + chunks.pendingCount) * limit + limit := by rw [Nat.add_mul]
    _ ≤ chunks.size.windowSize * limit + limit :=
        Nat.add_le_add_right (Nat.mul_le_mul_right limit window) limit
    _ = (chunks.size.windowSize + 1) * limit := (Nat.succ_mul _ _).symm

theorem slotBytes_le_of_forall₂ {before after : List OutboundSlot}
    (changes : List.Forall₂ KeepsOrDrops before after) : slotBytes after ≤ slotBytes before := by
  induction changes with
  | nil => exact le_rfl
  | cons change _ ih =>
    unfold slotBytes at ih ⊢
    rw [map_cons, sum_cons, map_cons, sum_cons]
    refine Nat.add_le_add ?_ ih
    rcases change with same | rfl
    · rw [OutboundSlot.heldBytes, OutboundSlot.heldBytes, same]
    · exact Nat.zero_le _

theorem Handled.heldBytes_le (handled : chunks.Handled next) :
    next.heldBytes ≤ chunks.heldBytes := by
  have slots := slotBytes_le_of_forall₂ handled.slots
  unfold heldBytes
  rw [handled.pendingFull, handled.writeBuf]
  omega

theorem size_stable (size : RingSize) : Stable fun chunks => chunks.size = size :=
  ⟨fun _ _ _ same => same, fun data isLast same => (enqueueChunk_size _ data isLast).trans same⟩

theorem pushAvailable_size (chunks : OutboundChunks) (data : Bytes) :
    (chunks.pushAvailable data).1.size = chunks.size :=
  (size_stable chunks.size).pushAvailable rfl data

theorem finalize_size (chunks : OutboundChunks) : chunks.finalize.1.size = chunks.size :=
  (size_stable chunks.size).finalize rfl

end OutboundChunks

namespace OutboundHistory

variable {history : OutboundHistory} {size : RingSize}

/-- What an operation does to the chunks: a push or a seal of an early stream, or something that
only passes chunks on. -/
theorem apply_cases (history : OutboundHistory) (op : RingOp) :
    history.ring.chunks.Handled (history.apply op).ring.chunks ∨
      (history.ring.lifecycle = .opened ∨ history.ring.lifecycle = .sealing) ∧
        ((∃ data, (history.apply op).ring.chunks = (history.ring.chunks.pushAvailable data).1) ∨
          (history.apply op).ring.chunks = history.ring.chunks.finalize.1) := by
  have refl := OutboundChunks.Handled.refl history.ring.chunks
  cases op with
  | push data =>
    rcases history.ring.tryPushAvailable_cases data with ⟨ring, _⟩ | ⟨opened, ring, _⟩
    · simp only [apply, ring]
      exact .inl refl
    · simp only [apply, ring]
      exact .inr ⟨.inl opened, .inl ⟨data, rfl⟩⟩
  | sealTurn =>
    rcases history.ring.sealTurn_cases with
      ⟨result, turn, _⟩ | ⟨early, ⟨chunks, isFinal, turn⟩ | ⟨chunks, _, isFinal, turn⟩⟩
    · simp only [apply, turn]
      exact .inl refl
    · exact .inr ⟨early, .inr (by simp only [apply, turn, isFinal])⟩
    · exact .inr ⟨early, .inr (by simp only [apply, turn, isFinal])⟩
  | lease callisId peerMsgId =>
    refine .inl ?_
    simp only [apply]
    split
    · exact refl
    · next lease ring leased =>
        unfold OutboundRingBuffer.leaseNextChunkForWrite at leased
        split at leased
        · obtain ⟨⟨_, chunks⟩, given, result⟩ := Option.map_eq_some_iff.mp leased
          cases result
          exact OutboundChunks.leaseNextChunkForWrite_handled given
        · cases leased
  | markInflight lease => exact .inl (history.ring.chunks.markInflight_handled lease)
  | loseCallis callisId => exact .inl (history.ring.chunks.markCallisReplayReady_handled callisId)
  | ack peerMsgId => exact .inl (history.ring.chunks.noteCompletion_handled peerMsgId .ack)
  | error peerMsgId error =>
    exact .inl (history.ring.chunks.noteCompletion_handled peerMsgId .error)
  | complete | fail _ | close => exact .inl refl

/-- A stream of a size, whatever was done to it. -/
structure Sized (history : OutboundHistory) (size : RingSize) : Prop where
  sound : ∃ created, history.Sound created
  fits : history.ring.chunks.Fits size.chunkSize
  size : history.ring.chunks.size = size

theorem Sized.start (size : RingSize) : (new size).Sized size :=
  ⟨⟨[], .start size⟩, .start size, rfl⟩

theorem Sized.apply (sized : history.Sized size) (op : RingOp) : (history.apply op).Sized size := by
  obtain ⟨_, sound⟩ := sized.sound
  obtain ⟨_, _, kept⟩ := sound.apply op
  rcases history.apply_cases op with handled | ⟨_, ⟨data, pushed⟩ | finalized⟩
  · exact ⟨⟨_, kept⟩, sized.fits.handled handled, handled.size.trans sized.size⟩
  · refine ⟨⟨_, kept⟩, ?_, ?_⟩
    · rw [pushed]
      exact sized.fits.pushAvailable data
    · rw [pushed, OutboundChunks.pushAvailable_size, sized.size]
  · refine ⟨⟨_, kept⟩, ?_, ?_⟩
    · rw [finalized]
      exact sized.fits.finalize
    · rw [finalized, OutboundChunks.finalize_size, sized.size]

theorem Sized.heldBytes_le (sized : history.Sized size) :
    history.ring.chunks.heldBytes ≤ (size.windowSize + 1) * size.chunkSize := by
  obtain ⟨_, sound⟩ := sized.sound
  have held := sized.fits.heldBytes_le sound.assembled.window
  rw [sized.size] at held
  exact held

/-- A stream that holds nothing and takes nothing more. -/
structure Spent (history : OutboundHistory) : Prop where
  empty : history.ring.chunks.heldBytes = 0
  past : ¬(history.ring.lifecycle = .opened ∨ history.ring.lifecycle = .sealing)

instance (history : OutboundHistory) : Decidable history.Spent :=
  decidable_of_iff (history.ring.chunks.heldBytes = 0 ∧
    ¬(history.ring.lifecycle = .opened ∨ history.ring.lifecycle = .sealing))
    ⟨fun ⟨empty, past⟩ => ⟨empty, past⟩, fun spent => ⟨spent.empty, spent.past⟩⟩

theorem past_apply (past : ¬(history.ring.lifecycle = .opened ∨ history.ring.lifecycle = .sealing))
    (op : RingOp) : ¬((history.apply op).ring.lifecycle = .opened ∨
      (history.apply op).ring.lifecycle = .sealing) := by
  have ended {lifecycle : OutboundLifecycle} (isEnded : lifecycle.Ended) :
      ¬(lifecycle = .opened ∨ lifecycle = .sealing) := by
    rintro (rfl | rfl) <;> exact isEnded
  cases op with
  | push data =>
    rcases history.ring.tryPushAvailable_cases data with ⟨ring, _⟩ | ⟨opened, _⟩
    · simpa only [apply, ring] using past
    · exact absurd (.inl opened) past
  | sealTurn =>
    rcases history.ring.sealTurn_cases with ⟨result, turn, _⟩ | ⟨early, _⟩
    · simpa only [apply, turn] using past
    · exact absurd early past
  | lease callisId peerMsgId =>
    simp only [apply]
    split
    · exact past
    · next lease ring leased =>
        unfold OutboundRingBuffer.leaseNextChunkForWrite at leased
        split at leased
        · obtain ⟨_, _, result⟩ := Option.map_eq_some_iff.mp leased
          cases result
          exact past
        · cases leased
  | markInflight lease | loseCallis callisId | ack peerMsgId => exact past
  | error peerMsgId error => exact ended trivial
  | complete => exact ended history.ring.lifecycle.markComplete_ended
  | fail error => exact ended (history.ring.lifecycle.markFailed_ended error)
  | close => exact ended history.ring.lifecycle.markClosed_ended

theorem Spent.apply (spent : history.Spent) (op : RingOp) : (history.apply op).Spent := by
  refine ⟨?_, past_apply spent.past op⟩
  rcases history.apply_cases op with handled | ⟨early, _⟩
  · have held := handled.heldBytes_le
    rw [spent.empty] at held
    exact Nat.le_zero.mp held
  · exact absurd early spent.past

end OutboundHistory

namespace InboundRingBuffer

def heldBytes (ring : InboundRingBuffer) : Nat := (ring.received.values.map List.length).sum

/-- At most a window of chunks is stored, each within the chunk size. -/
structure Bounded (ring : InboundRingBuffer) (size : RingSize) : Prop where
  short : ∀ data ∈ ring.received.values, data.length ≤ size.chunkSize
  few : ring.received.entries.length ≤ size.windowSize
  size : ring.size = size

variable {ring : InboundRingBuffer} {size : RingSize}

theorem Bounded.start (size : RingSize) : (new size).Bounded size :=
  ⟨nofun, Nat.zero_le _, rfl⟩

variable (bounded : ring.Bounded size)

include bounded

theorem Bounded.heldBytes_le : ring.heldBytes ≤ size.windowSize * size.chunkSize := by
  have sum : (ring.received.values.map length).sum ≤
      (ring.received.values.map length).length • size.chunkSize := by
    apply sum_le_card_nsmul
    intro length listed
    obtain ⟨data, isValue, rfl⟩ := mem_map.mp listed
    exact bounded.short data isValue
  have count : (ring.received.values.map length).length = ring.received.entries.length := by
    simp [HashMap.values]
  rw [count, nsmul_eq_mul, Nat.cast_id] at sum
  exact sum.trans (Nat.mul_le_mul_right _ bounded.few)

theorem Bounded.store {chunk : Chunk} (admitted : ring.refuse chunk = none) :
    (ring.store chunk).Bounded size := by
  obtain ⟨_, _, absent⟩ := refuse_eq_none admitted
  have checked : chunk.data.length ≤ ring.size.chunkSize ∧
      ring.received.entries.length < ring.size.windowSize := by
    unfold refuse at admitted
    split_ifs at admitted with tooLong delivered beyond present full gap
    exact ⟨Nat.not_lt.mp tooLong, Nat.not_le.mp full⟩
  have entries : (ring.store chunk).received.entries =
      ⟨chunk.chunkId, chunk.data⟩ :: ring.received.entries :=
    AList.entries_insert_of_notMem (AList.lookup_eq_none.mp absent)
  rw [bounded.size] at checked
  refine ⟨?_, ?_, bounded.size⟩
  · intro data listed
    rw [HashMap.values, entries, map_cons] at listed
    rcases mem_cons.mp listed with rfl | before
    · exact checked.1
    · exact bounded.short data before
  · rw [entries, length_cons]
    exact checked.2

theorem Bounded.insertChunk (chunk : Chunk) : (ring.insertChunk chunk).1.Bounded size := by
  rcases ring.insertChunk_cases chunk with ⟨_, _, unchanged⟩ | ⟨admitted, last, _, stored⟩
  · rw [unchanged]
    exact bounded
  · rw [stored]
    exact { bounded.store admitted with }

theorem Bounded.takeNext {data : Bytes} {next : InboundRingBuffer}
    (took : ring.takeNext = some (data, next)) : next.Bounded size := by
  obtain ⟨_, rfl⟩ := takeNext_eq_some took
  have fewer : (ring.received.erase ring.nextDeliver).entries.Sublist ring.received.entries :=
    kerase_sublist _ _
  refine ⟨?_, fewer.length_le.trans bounded.few, bounded.size⟩
  intro other listed
  exact bounded.short other ((fewer.map Sigma.snd).subset listed)

end InboundRingBuffer

end AureliaPeering.Ring
