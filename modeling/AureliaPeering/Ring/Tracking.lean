import AureliaPeering.Ring.History

/-!
Which attempt an acknowledgement settles.

The index of the slots is keyed by chunk id.  Ids repeat once the counter is saturated, and then a
slot may lose its entry; such a slot is never emptied again, so the ring is never drained.  Without
such an orphan every entry of the acknowledgement map names the attempt in flight.
-/

namespace AureliaPeering.Ring

open Collections List

namespace OutboundChunks

def chunkAt (chunks : OutboundChunks) (index : Nat) : Option Chunk :=
  chunks.slots[index]?.bind OutboundSlot.chunk?

def Indexed (chunks : OutboundChunks) : Prop :=
  ∀ id index, chunks.chunkIndex.lookup id = some index →
    ∃ chunk, chunks.chunkAt index = some chunk ∧ chunk.chunkId = id

/-- Some slot holds a chunk that the index does not find. -/
def Orphaned (chunks : OutboundChunks) : Prop :=
  ∃ index chunk, chunks.chunkAt index = some chunk ∧
    chunks.chunkIndex.lookup chunk.chunkId ≠ some index

/-- An entry of the acknowledgement map names the attempt in flight. -/
def Attempted (chunks : OutboundChunks) : Prop :=
  ∀ peerMsgId id, chunks.ackMap.lookup peerMsgId = some id →
    ∃ index chunk callisId seq, chunks.chunkIndex.lookup id = some index ∧
      chunks.slots[index]? = some (.inFlight chunk peerMsgId callisId seq)

/-- Every chunk created is settled or in a slot, unless a slot is orphaned. -/
structure Tracked (chunks : OutboundChunks) (Settled : Chunk → Prop) (created : List Chunk) :
    Prop where
  indexed : chunks.Indexed
  accounted : chunks.Orphaned ∨ chunks.Attempted ∧
    ∀ chunk ∈ created, Settled chunk ∨ ∃ index, chunks.chunkAt index = some chunk

section Tracked

variable {chunks next : OutboundChunks} {Settled More : Chunk → Prop} {created : List Chunk}
variable {id index : Nat} {old slot : OutboundSlot} {callisId : CallisId}
  {peerMsgId : PeerMessageId}

theorem Tracked.start (size : RingSize) (Settled : Chunk → Prop) :
    (new size).Tracked Settled [] :=
  ⟨by simp [Indexed, new], .inr ⟨by simp [Attempted, new], nofun⟩⟩

theorem Tracked.mono (tracked : chunks.Tracked Settled created)
    (more : ∀ chunk, Settled chunk → More chunk) : chunks.Tracked More created :=
  ⟨tracked.indexed, tracked.accounted.imp_right fun ⟨attempted, all⟩ =>
    ⟨attempted, fun chunk listed => (all chunk listed).imp_left (more chunk)⟩⟩

theorem chunkAt_of_slot
    (found : chunks.slots[index]? = some slot) : chunks.chunkAt index = slot.chunk? := by
  simp [chunkAt, found]

theorem chunkAt_set
    (found : chunks.slots[index]? = some old) (slots : next.slots = chunks.slots.set index slot)
    (other : Nat) :
    next.chunkAt other = if other = index then slot.chunk? else chunks.chunkAt other := by
  have bound := (List.getElem?_eq_some_iff.mp found).1
  by_cases same : other = index
  · subst same
    simp [chunkAt, slots, bound]
  · simp [chunkAt, slots, same, getElem?_set_ne (Ne.symm same)]

theorem Tracked.rehand (tracked : chunks.Tracked Settled created)
    (chunkAt : ∀ index, next.chunkAt index = chunks.chunkAt index)
    (chunkIndex : next.chunkIndex = chunks.chunkIndex)
    (attempted : chunks.Attempted → next.Attempted) : next.Tracked Settled created := by
  refine ⟨?_, ?_⟩
  · simpa only [Indexed, chunkAt, chunkIndex] using tracked.indexed
  · simp only [Orphaned, chunkAt, chunkIndex]
    exact tracked.accounted.imp_right fun ⟨attempts, all⟩ => ⟨attempted attempts, all⟩

/-- A chunk put into an empty slot.  If its id is in use, the slot that used it is orphaned. -/
theorem Tracked.enqueue (tracked : chunks.Tracked Settled created) {chunk : Chunk}
    (free : chunks.slots[index]? = some .empty)
    (slots : next.slots = chunks.slots.set index (.ready chunk 0))
    (chunkIndex : next.chunkIndex = chunks.chunkIndex.insert chunk.chunkId index)
    (ackMap : next.ackMap = chunks.ackMap) : next.Tracked Settled (created ++ [chunk]) := by
  have holds := chunkAt_set free slots
  have absent : chunks.chunkAt index = none := chunkAt_of_slot free
  have elsewhere {other : Nat} {held : Chunk} (found : chunks.chunkAt other = some held) :
      other ≠ index := by
    rintro rfl
    simp [absent] at found
  have kept {other : Nat} {held : Chunk} (found : chunks.chunkAt other = some held) :
      next.chunkAt other = some held := by
    rw [holds, if_neg (elsewhere found)]
    exact found
  have lookup (id : Nat) : next.chunkIndex.lookup id =
      if id = chunk.chunkId then some index else chunks.chunkIndex.lookup id := by
    rw [chunkIndex, HashMap.lookup_insert_eq]
  refine ⟨?_, ?_⟩
  · intro id found entry
    rw [lookup] at entry
    split at entry
    · rename_i same
      cases entry
      exact ⟨chunk, by simp [holds, OutboundSlot.chunk?], same.symm⟩
    · obtain ⟨held, there, named⟩ := tracked.indexed id found entry
      exact ⟨held, kept there, named⟩
  · have orphan {other : Nat} {held : Chunk} (found : chunks.chunkAt other = some held)
        (lost : held.chunkId = chunk.chunkId ∨
          chunks.chunkIndex.lookup held.chunkId ≠ some other) : next.Orphaned := by
      refine ⟨other, held, kept found, ?_⟩
      rw [lookup]
      split
      · exact fun same => elsewhere found (Option.some.inj same).symm
      · exact lost.resolve_left ‹_›
    rcases tracked.accounted with ⟨other, held, found, lost⟩ | ⟨attempted, all⟩
    · exact .inl (orphan found (.inr lost))
    · cases used : chunks.chunkIndex.lookup chunk.chunkId with
      | some other =>
        obtain ⟨held, found, same⟩ := tracked.indexed _ _ used
        exact .inl (orphan found (.inl same))
      | none =>
        refine .inr ⟨?_, ?_⟩
        · intro peerMsgId id entry
          rw [ackMap] at entry
          obtain ⟨other, held, callisId, seq, there, inFlight⟩ := attempted peerMsgId id entry
          have other_ne : index ≠ other := Ne.symm (elsewhere (chunkAt_of_slot inFlight))
          refine ⟨other, held, callisId, seq, ?_, ?_⟩
          · rw [lookup, if_neg (by rintro rfl; simp [used] at there)]
            exact there
          · rw [slots, getElem?_set_ne other_ne]
            exact inFlight
        · intro held listed
          rcases mem_append.mp listed with old | new
          · exact (all held old).imp_right (Exists.imp fun other found => kept found)
          · obtain rfl := mem_singleton.mp new
            exact .inr ⟨index, by simp [holds, OutboundSlot.chunk?]⟩

theorem Tracked.enqueued (tracked : chunks.Tracked Settled created) {new : List Chunk}
    (enqueued : chunks.Enqueued new next) : next.Tracked Settled (created ++ new) := by
  induction enqueued with
  | none slots chunkIndex ackMap =>
    rw [append_nil]
    refine tracked.rehand (by simp [chunkAt, slots]) chunkIndex ?_
    simp [Attempted, slots, chunkIndex, ackMap]
  | snoc _ free slots chunkIndex ackMap ih =>
    rw [← append_assoc]
    exact ih.enqueue free slots chunkIndex ackMap

theorem chunkAt_pass
    (found : chunks.slots[index]? = some old) (slots : next.slots = chunks.slots.set index slot)
    (kept : slot.chunk? = old.chunk?) (other : Nat) :
    next.chunkAt other = chunks.chunkAt other := by
  rw [chunkAt_set found slots]
  split
  · rename_i same
    rw [kept, same, chunkAt_of_slot found]
  · rfl

theorem Tracked.lease (tracked : chunks.Tracked Settled created) {lease : ChunkWriteLease}
    (leased : chunks.leaseNextChunkForWrite callisId peerMsgId = some (lease, next)) :
    next.Tracked Settled created := by
  obtain ⟨index, _, found, holds, waiting, rfl⟩ := leaseNextChunkForWrite_eq_some leased
  refine tracked.rehand (chunkAt_pass found rfl holds.symm) rfl ?_
  intro attempted current id entry
  obtain ⟨other, chunk, holder, seq, there, inFlight⟩ := attempted current id entry
  have distinct : index ≠ other := by
    rintro rfl
    exact waiting chunk current holder seq (Option.some.inj (found.symm.trans inFlight))
  exact ⟨other, chunk, holder, seq, there, by rw [getElem?_set_ne distinct]; exact inFlight⟩

theorem Tracked.markInflight (tracked : chunks.Tracked Settled created) (lease : ChunkWriteLease) :
    (chunks.markInflight lease).1.Tracked Settled created := by
  rcases chunks.markInflight_cases lease with unchanged | ⟨index, chunk, there, found, id, marked⟩
  · rw [unchanged]
    exact tracked
  · rw [marked]
    refine tracked.rehand (chunkAt_pass found rfl rfl) rfl ?_
    intro attempted current id entry
    rw [HashMap.lookup_insert_eq] at entry
    split at entry
    · rename_i same
      cases entry
      subst same
      refine ⟨index, chunk, lease.callisId, lease.slotSeq, there, ?_⟩
      simp [(List.getElem?_eq_some_iff.mp found).1]
    · obtain ⟨other, held, holder, seq, known, inFlight⟩ := attempted current id entry
      have distinct : index ≠ other := by
        rintro rfl
        cases found.symm.trans inFlight
      exact ⟨other, held, holder, seq, known, by
        rw [getElem?_set_ne distinct]
        exact inFlight⟩

theorem forgetInflight_lookup {slots : List OutboundSlot}
    {account : HashMap PeerMessageId Nat × Nat}
    (entry : (slots.foldl (forgetInflight callisId) account).1.lookup peerMsgId = some id) :
    account.1.lookup peerMsgId = some id ∧
      ∀ chunk seq, .inFlight chunk peerMsgId callisId seq ∉ slots := by
  induction slots generalizing account with
  | nil => exact ⟨entry, nofun⟩
  | cons slot rest ih =>
    obtain ⟨known, absent⟩ := ih entry
    -- the head is skipped, or its entry is gone
    obtain ⟨known, skipped⟩ : account.1.lookup peerMsgId = some id ∧
        ∀ chunk seq, .inFlight chunk peerMsgId callisId seq ≠ slot := by
      unfold forgetInflight at known
      split at known
      · rename_i chunk current holder seq
        split at known
        · rw [HashMap.lookup_erase_eq] at known
          split at known
          · cases known
          · rename_i different
            exact ⟨known, fun _ _ same => different (by cases same; rfl)⟩
        · rename_i different
          exact ⟨known, fun _ _ same => different (by cases same; rfl)⟩
      · rename_i other
        exact ⟨known, fun chunk seq same => other _ _ _ _ same.symm⟩
    refine ⟨known, fun chunk seq listed => ?_⟩
    rcases mem_cons.mp listed with head | later
    · exact skipped chunk seq head
    · exact absent chunk seq later

theorem Tracked.loseCallis (tracked : chunks.Tracked Settled created) (callisId : CallisId) :
    (chunks.markCallisReplayReady callisId).1.Tracked Settled created := by
  refine tracked.rehand ?_ rfl ?_
  · intro index
    simp only [chunkAt, markCallisReplayReady, getElem?_map]
    cases chunks.slots[index]? <;> simp
  · intro attempted current id entry
    obtain ⟨known, absent⟩ := forgetInflight_lookup entry
    obtain ⟨index, chunk, holder, seq, there, inFlight⟩ := attempted current id known
    have other : holder ≠ callisId := by
      rintro rfl
      exact absent chunk seq (mem_of_getElem? inFlight)
    refine ⟨index, chunk, holder, seq, there, ?_⟩
    simp [markCallisReplayReady, inFlight, OutboundSlot.replay, other]

theorem Tracked.complete
    (tracked : chunks.Tracked (fun chunk => Settled chunk ∨ chunk ∈ chunks.attempts peerMsgId)
      created)
    (entry : chunks.ackMap.lookup peerMsgId = some id)
    (there : chunks.chunkIndex.lookup id = some index) (found : chunks.slots[index]? = some slot)
    (slots : next.slots = chunks.slots.set index .empty)
    (chunkIndex : next.chunkIndex = chunks.chunkIndex.erase id)
    (ackMap : next.ackMap = chunks.ackMap.erase peerMsgId) :
    next.Tracked (fun chunk => Settled chunk ∨ chunk ∈ chunks.attempts peerMsgId) created := by
  have holds := chunkAt_set found slots
  have lookup (other : Nat) : next.chunkIndex.lookup other =
      if other = id then none else chunks.chunkIndex.lookup other := by
    rw [chunkIndex, HashMap.lookup_erase_eq]
  -- the only entry that points to the emptied slot is the one removed
  have named {held : Chunk} (here : chunks.chunkAt index = some held) : held.chunkId = id := by
    obtain ⟨chunk, same, named⟩ := tracked.indexed id index there
    cases here.symm.trans same
    exact named
  refine ⟨?_, ?_⟩
  · intro other elsewhere known
    rw [lookup] at known
    split at known
    · cases known
    · rename_i different
      obtain ⟨held, place, same⟩ := tracked.indexed other elsewhere known
      refine ⟨held, ?_, same⟩
      rw [holds, if_neg]
      · exact place
      · rintro rfl
        exact different (same.symm.trans (named place))
  · rcases tracked.accounted with ⟨other, held, place, lost⟩ | ⟨attempted, all⟩
    · refine .inl ⟨other, held, ?_, ?_⟩
      · rw [holds, if_neg]
        · exact place
        · rintro rfl
          exact lost (named place ▸ there)
      · rw [lookup]
        split
        · exact nofun
        · exact lost
    · obtain ⟨same, chunk, _, _, pointed, inFlight⟩ := attempted peerMsgId id entry
      cases there.symm.trans pointed
      refine .inr ⟨?_, ?_⟩
      · intro current other known
        rw [ackMap, HashMap.lookup_erase_eq] at known
        split at known
        · cases known
        · rename_i different
          obtain ⟨elsewhere, held, callisId, number, points, flying⟩ :=
            attempted current other known
          have apart : index ≠ elsewhere := by
            rintro rfl
            cases inFlight.symm.trans flying
            exact different rfl
          refine ⟨elsewhere, held, callisId, number, ?_, ?_⟩
          · rw [lookup, if_neg]
            · exact points
            · rintro rfl
              exact apart (Option.some.inj (there.symm.trans points))
          · rw [slots, getElem?_set_ne apart]
            exact flying
      · intro held listed
        rcases all held listed with done | ⟨other, place⟩
        · exact .inl done
        · by_cases here : other = index
          · subst here
            cases (chunkAt_of_slot inFlight).symm.trans place
            refine .inl (.inr (mem_filterMap.mpr ⟨_, mem_of_getElem? inFlight, ?_⟩))
            simp
          · exact .inr ⟨other, by rw [holds, if_neg here]; exact place⟩

theorem Tracked.noteCompletion (tracked : chunks.Tracked Settled created)
    (peerMsgId : PeerMessageId) (completion : ChunkCompletion) :
    (chunks.noteCompletion peerMsgId completion).1.Tracked
      (fun chunk => Settled chunk ∨ chunk ∈ chunks.attempts peerMsgId) created := by
  have settled := tracked.mono fun chunk (done : Settled chunk) =>
    (.inl done : Settled chunk ∨ chunk ∈ chunks.attempts peerMsgId)
  unfold OutboundChunks.noteCompletion
  split
  · exact settled
  · rename_i id entry
    dsimp only
    split
    · refine settled.rehand (fun _ => rfl) rfl ?_
      intro attempted current other known
      rw [HashMap.lookup_erase_eq] at known
      split at known
      · cases known
      · exact attempted current other known
    · rename_i index there
      obtain ⟨chunk, holds, _⟩ := tracked.indexed id index there
      split
      · rename_i missing
        simp [chunkAt, missing] at holds
      · rename_i slot found
        exact settled.complete entry there found rfl rfl rfl

end Tracked

end OutboundChunks

namespace OutboundHistory

/-- A chunk of a history is settled if its attempt was acknowledged or the stream has failed. -/
def Settled (history : OutboundHistory) (chunk : Chunk) : Prop :=
  chunk ∈ history.acknowledged ∨ history.ring.lifecycle.failure.isSome

def Tracked (history : OutboundHistory) (created : List Chunk) : Prop :=
  history.ring.chunks.Tracked history.Settled created

section Steps

variable {history next : OutboundHistory} {created : List Chunk}

theorem lease_cases (history : OutboundHistory) (callisId : CallisId) (peerMsgId : PeerMessageId) :
    history.apply (.lease callisId peerMsgId) = history ∨
    ∃ lease chunks, history.ring.lifecycle.canDrainChunks = true ∧
      history.ring.chunks.leaseNextChunkForWrite callisId peerMsgId = some (lease, chunks) ∧
      history.apply (.lease callisId peerMsgId) = { history with
        ring := { history.ring with chunks := chunks }
        leases := history.leases ++ [lease] } := by
  simp only [apply, OutboundRingBuffer.leaseNextChunkForWrite]
  split_ifs with drains
  · cases given : history.ring.chunks.leaseNextChunkForWrite callisId peerMsgId with
    | none => exact .inl rfl
    | some leased => exact .inr ⟨leased.1, leased.2, drains, rfl, rfl⟩
  · exact .inl rfl

theorem apply_of_ended (op : RingOp) (ended : history.ring.lifecycle.Ended) :
    (history.apply op).ring.lifecycle = op.mark history.ring.lifecycle ∧
      (history.apply op).accepted = history.accepted := by
  cases op with
  | push data =>
    rcases history.ring.tryPushAvailable_cases data with ⟨ring, taken⟩ | ⟨opened, _⟩
    · simp [apply, ring, taken, RingOp.mark]
    · simp [opened, OutboundLifecycle.Ended] at ended
  | sealTurn =>
    rcases history.ring.sealTurn_cases with ⟨_, turn, _⟩ | ⟨early | early, _⟩
    · simp [apply, turn, RingOp.mark]
    all_goals simp [early, OutboundLifecycle.Ended] at ended
  | lease callisId peerMsgId =>
    rcases history.lease_cases callisId peerMsgId with unchanged | ⟨_, _, _, _, leased⟩
    · rw [unchanged]
      exact ⟨rfl, rfl⟩
    · rw [leased]
      exact ⟨rfl, rfl⟩
  | _ => exact ⟨rfl, rfl⟩

theorem failure_apply (op : RingOp) (failed : history.ring.lifecycle.failure.isSome) :
    (history.apply op).ring.lifecycle.failure.isSome := by
  obtain ⟨error, lifecycle⟩ : ∃ error, history.ring.lifecycle = .failed error := by
    cases lifecycle : history.ring.lifecycle <;> simp_all [OutboundLifecycle.failure]
  rw [(apply_of_ended op (by rw [lifecycle]; trivial)).1, lifecycle]
  cases op <;> rfl

theorem ended_apply (op : RingOp) (ended : history.ring.lifecycle.Ended) :
    (history.apply op).ring.lifecycle.Ended := by
  rw [(apply_of_ended op ended).1]
  cases op with
  | complete => exact OutboundLifecycle.markComplete_ended _
  | fail error => exact OutboundLifecycle.markFailed_ended _ _
  | close => exact OutboundLifecycle.markClosed_ended _
  | error => trivial
  | _ => exact ended

theorem acknowledged_apply (op : RingOp) :
    history.acknowledged ⊆ (history.apply op).acknowledged := by
  cases op with
  | ack => exact subset_append_left _ _
  | lease callisId peerMsgId =>
    rcases history.lease_cases callisId peerMsgId with unchanged | ⟨_, _, _, _, leased⟩
    · rw [unchanged]
      exact List.Subset.refl _
    · rw [leased]
      exact List.Subset.refl _
  | push | sealTurn | markInflight | loseCallis | error | complete | fail | close =>
    exact List.Subset.refl _

theorem Settled.apply (op : RingOp) (chunk : Chunk) (settled : history.Settled chunk) :
    (history.apply op).Settled chunk :=
  settled.imp (@acknowledged_apply history op chunk) (failure_apply op)

theorem Tracked.apply (tracked : history.Tracked created) {op : RingOp} {new : List Chunk}
    (adds : history.Adds op new) : (history.apply op).Tracked (created ++ new) := by
  have kept := OutboundChunks.Tracked.mono tracked (Settled.apply op)
  cases op with
  | push | sealTurn => exact kept.enqueued adds
  | lease callisId peerMsgId =>
    obtain rfl := adds
    rw [append_nil]
    rcases history.lease_cases callisId peerMsgId with unchanged | ⟨_, _, _, given, leased⟩
    · rw [unchanged]
      exact tracked
    · rw [leased]
      exact OutboundChunks.Tracked.lease tracked given
  | markInflight lease =>
    obtain rfl := adds
    rw [append_nil]
    exact kept.markInflight lease
  | loseCallis callisId =>
    obtain rfl := adds
    rw [append_nil]
    exact kept.loseCallis callisId
  | ack peerMsgId =>
    obtain rfl := adds
    rw [append_nil]
    refine (kept.noteCompletion peerMsgId .ack).mono ?_
    rintro chunk (settled | attempted)
    · exact settled
    · exact .inl (mem_append_right _ attempted)
  | error peerMsgId error =>
    obtain rfl := adds
    rw [append_nil]
    exact (kept.noteCompletion peerMsgId .error).mono fun _ _ => .inr rfl
  | complete | fail | close =>
    obtain rfl := adds
    rw [append_nil]
    exact kept

theorem Tracked.settled_of_drained (tracked : history.Tracked created)
    (drained : history.ring.chunks.isDrained) : ∀ chunk ∈ created, history.Settled chunk := by
  have none (index : Nat) : history.ring.chunks.chunkAt index = none := by
    have live : history.ring.chunks.liveChunkCount = 0 := by
      simp only [OutboundChunks.isDrained, Bool.and_eq_true, decide_eq_true_eq] at drained
      exact drained.1
    cases found : history.ring.chunks.slots[index]? with
    | none => simp [OutboundChunks.chunkAt, found]
    | some slot =>
      have dead := countP_eq_zero.mp live slot (mem_of_getElem? found)
      simpa [OutboundChunks.chunkAt, found, OutboundSlot.isLive] using dead
  rcases tracked.accounted with ⟨index, chunk, found, _⟩ | ⟨_, all⟩
  · simp [none] at found
  · intro chunk listed
    refine (all chunk listed).resolve_right ?_
    rintro ⟨index, found⟩
    simp [none] at found

end Steps

end OutboundHistory

end AureliaPeering.Ring
