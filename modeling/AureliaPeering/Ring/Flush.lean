import AureliaPeering.Ring.ChunkRun
import Mathlib.Data.List.Induction

/-!
Where the accepted bytes of an outbound stream are.

They are in acknowledged chunks, in chunks of the window and in the staging area, and before the
last chunk is made the last bytes are always staged.
-/

namespace AureliaPeering.Ring

open OutboundLifecycle List

namespace OutboundHistory

def of (size : RingSize) (ops : List RingOp) : OutboundHistory := ops.foldl apply (new size)

/-- The chunk table is the one of a run of the table alone, finalized only by a seal. -/
structure Runs (ring : OutboundRingBuffer) (run : ChunkRun) : Prop where
  same : run.chunks = ring.chunks
  late : run.finalized = true → ring.lifecycle ≠ .opened ∧ ring.lifecycle ≠ .sealing

variable {history : OutboundHistory} {run : ChunkRun}

theorem Runs.apply (runs : Runs history.ring run) (op : RingOp) :
    ∃ calls : List ChunkOp, Runs (history.apply op).ring (calls.foldl ChunkRun.apply run) := by
  have same := runs.same
  have early (opened : history.ring.lifecycle = .opened ∨ history.ring.lifecycle = .sealing) :
      run.finalized = false :=
    Bool.eq_false_iff.mpr fun done => opened.elim (runs.late done).1 (runs.late done).2
  have ended (isEnded : (history.apply op).ring.lifecycle.Ended) :
      (history.apply op).ring.lifecycle ≠ .opened ∧
        (history.apply op).ring.lifecycle ≠ .sealing := by
    constructor <;> intro isEarly <;> simp [isEarly, Ended] at isEnded
  cases op with
  | push data =>
    simp only [OutboundHistory.apply]
    rcases history.ring.tryPushAvailable_cases data with ⟨ring, _⟩ | ⟨opened, ring, _⟩
    · rw [ring]
      exact ⟨[], runs⟩
    · have unfinished := early (.inl opened)
      exact ⟨[.push data], by simp [ring, ChunkRun.apply, unfinished, same],
        by simp [ChunkRun.apply, unfinished]⟩
  | sealTurn =>
    simp only [OutboundHistory.apply]
    rcases history.ring.sealTurn_cases with ⟨_, turn, _⟩ | ⟨opened, turns⟩
    · rw [turn]
      exact ⟨[], runs⟩
    · have unfinished := early opened
      refine ⟨[.finalize], ?_⟩
      rcases turns with ⟨chunks, made, turn⟩ | ⟨chunks, notify, made, turn⟩
      · exact ⟨by simp [turn, ChunkRun.apply, same, made],
          by simp [ChunkRun.apply, same, made, unfinished]⟩
      · exact ⟨by simp [turn, ChunkRun.apply, same, made], by simp [turn]⟩
  | lease callisId peerMsgId =>
    rcases history.lease_cases callisId peerMsgId with unchanged | ⟨_, _, _, given, leased⟩
    · rw [unchanged]
      exact ⟨[], runs⟩
    · rw [leased]
      exact ⟨[.lease callisId peerMsgId], by simp [ChunkRun.apply, same, given],
        by simpa [ChunkRun.apply, same, given] using runs.late⟩
  | markInflight lease =>
    exact ⟨[.markInflight lease], congrArg (fun chunks => (chunks.markInflight lease).1) same,
      runs.late⟩
  | loseCallis callisId =>
    exact ⟨[.loseCallis callisId],
      congrArg (fun chunks => (chunks.markCallisReplayReady callisId).1) same, runs.late⟩
  | ack peerMsgId =>
    exact ⟨[.complete peerMsgId .ack],
      congrArg (fun chunks => (chunks.noteCompletion peerMsgId .ack).1) same, runs.late⟩
  | error peerMsgId error =>
    exact ⟨[.complete peerMsgId .error],
      congrArg (fun chunks => (chunks.noteCompletion peerMsgId .error).1) same,
      fun _ => ended trivial⟩
  | complete => exact ⟨[], same, fun _ => ended (markComplete_ended _)⟩
  | fail error => exact ⟨[], same, fun _ => ended (markFailed_ended error _)⟩
  | close => exact ⟨[], same, fun _ => ended (markClosed_ended _)⟩

theorem acknowledged_mem {created new : List Chunk} (sound : history.Sound created)
    (listed : history.acknowledged ⊆ created) (op : RingOp) :
    (history.apply op).acknowledged ⊆ created ++ new := by
  intro chunk isListed
  apply mem_append_left
  cases op with
  | ack peerMsgId =>
    rcases mem_append.mp isListed with old | now
    · exact listed old
    · obtain ⟨slot, isSlot, attempted⟩ := mem_filterMap.mp now
      refine sound.assembled.held slot isSlot chunk ?_
      split at attempted
      · exact (Option.ite_none_right_eq_some.mp attempted).2
      · cases attempted
  | lease callisId peerMsgId =>
    rcases history.lease_cases callisId peerMsgId with unchanged | ⟨_, _, _, _, leased⟩
    · exact listed (unchanged ▸ isListed)
    · rw [leased] at isListed
      exact listed isListed
  | _ => exact listed isListed

theorem reached_of (size : RingSize) (ops : List RingOp) : ∃ created calls,
    (of size ops).Sound created ∧ (of size ops).Tracked created ∧
      (of size ops).acknowledged ⊆ created ∧
      Runs (of size ops).ring (ChunkRun.of size calls) := by
  induction ops using List.reverseRecOn with
  | nil => exact ⟨[], [], .start size, .start size _, nofun, rfl, nofun⟩
  | append_singleton ops op ih =>
    obtain ⟨created, calls, sound, tracked, listed, runs⟩ := ih
    obtain ⟨new, adds, next⟩ := sound.apply op
    obtain ⟨more, runs⟩ := runs.apply op
    rw [of, foldl_concat, ← of]
    refine ⟨created ++ new, calls ++ more, next, tracked.apply adds,
      acknowledged_mem sound listed op, ?_⟩
    rwa [ChunkRun.of, foldl_append]

/-- The chunk is acknowledged or in the window. -/
def Carries (history : OutboundHistory) (chunk : Chunk) : Prop :=
  chunk ∈ history.acknowledged ∨ ∃ index, history.ring.chunks.chunkAt index = some chunk

def Unstaged (history : OutboundHistory) : Prop :=
  history.ring.chunks.pendingFull = none ∧ history.ring.chunks.writeBuf = []

/-- The chunks made so far and the staging area make up what was accepted, and every chunk made is
still there or acknowledged. -/
structure Located (history : OutboundHistory) (created : List Chunk) : Prop where
  bytes : created.flatMap Chunk.data ++ (history.ring.chunks.pendingFull.getD [] ++
    history.ring.chunks.writeBuf) = history.accepted
  carries : ∀ chunk, chunk ∈ created ↔ history.Carries chunk

theorem located_of (size : RingSize) (ops : List RingOp)
    (unfailed : (of size ops).ring.lifecycle.failure = none)
    (small : (of size ops).ring.chunks.nextChunkId < u64Max) :
    ∃ created, (of size ops).Located created ∧ (of size ops).Sound created ∧
      ((of size ops).Unstaged ↔ (of size ops).accepted = [] ∨
        ∃ last ∈ created, last.isLast = true) := by
  obtain ⟨created, calls, sound, tracked, listed, runs⟩ := reached_of size ops
  obtain ⟨_, inv⟩ := ChunkRun.inv_of size calls
  have sole := (inv.exact (runs.same ▸ small)).2.sole
  have fits := inv.fits
  rw [runs.same] at sole fits
  have bytes := sound.assembled.bytes
  refine ⟨created, ⟨bytes, fun chunk => ⟨fun made => ?_, ?_⟩⟩, sound, fun unstaged => ?_, ?_⟩
  · rcases tracked.accounted with ⟨index, other, found, lost⟩ | ⟨_, all⟩
    · exact absurd (sole index other found) lost
    · exact (all chunk made).imp_left fun settled => settled.resolve_right (by simp [unfailed])
  · rintro (acknowledged | ⟨index, found⟩)
    · exact listed acknowledged
    · obtain ⟨slot, isSlot, holds⟩ := Option.bind_eq_some_iff.mp found
      exact sound.assembled.held slot (mem_of_getElem? isSlot) chunk holds
  · rcases sound.staged with unsealed | isSealed
    · -- nothing was cut yet, so that all bytes would be staged
      have uncut : (of size ops).ring.chunks.createdAny = false := by
        by_contra cut
        rcases unsealed.staged (Bool.not_eq_false _ ▸ cut) with pending | partly
        · simp [unstaged.1] at pending
        · exact partly unstaged.2
      have counted := sound.assembled.counted
      rw [fits.begun uncut] at counted
      have none : created = [] := length_eq_zero_iff.mp (by
        have : 0 < u64Max := by decide
        omega)
      rw [none, unstaged.1, unstaged.2] at bytes
      exact .inl bytes.symm
    · obtain ⟨_, last, rfl, isLast, _⟩ := isSealed.flagged
      exact .inr ⟨last, by simp, isLast⟩
  · rintro (none | ⟨last, made, isLast⟩)
    · rw [none, append_eq_nil_iff, append_eq_nil_iff] at bytes
      refine ⟨?_, bytes.2.2⟩
      cases pending : (of size ops).ring.chunks.pendingFull with
      | none => rfl
      | some data =>
        rw [pending] at bytes
        exact absurd bytes.2.1 (fits.ne_nil (fits.pending data pending))
    · rcases sound.staged with unsealed | isSealed
      · cases (unsealed.unflagged last made).symm.trans isLast
      · exact ⟨isSealed.noPending, isSealed.noPartial⟩

end OutboundHistory

end AureliaPeering.Ring
