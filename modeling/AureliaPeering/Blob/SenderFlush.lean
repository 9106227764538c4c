import AureliaPeering.Blob.SenderSuccess
import AureliaPeering.Ring.Flush

/-!
What a successful flush of a sender stream means.

A flush waits until no chunk is in flight, and a flush of a closed stream for nothing.  It neither
waits for the staging area nor empties it.
-/

namespace AureliaPeering.Blob.BlobSenderStream

open AureliaPeering.Ring Option

variable {size : RingSize} {stream next : BlobSenderStream} {expired : Bool}

/-- A turn of a future applies at most one operation to the ring. -/
theorem history_resumeShutdown (stream : BlobSenderStream) (expired : Bool)
    (phase : ShutdownPhase) :
    (stream.resumeShutdown expired phase).history = stream.history ∨
      ∃ op, (stream.resumeShutdown expired phase).history = stream.history.apply op := by
  cases phase with
  | start =>
    simp only [resumeShutdown]
    split <;> exact .inl rfl
  | sealing =>
    simp only [resumeShutdown]
    split <;> exact .inr ⟨.sealTurn, rfl⟩
  | waitingCapacity =>
    simp only [resumeShutdown]
    split <;> exact .inl rfl
  | waitingComplete =>
    simp only [resumeShutdown]
    split
    · simp only [cleanup]
      split
      · exact .inl rfl
      · dsimp only [finishShutdown]
        split
        · exact .inr ⟨.close, rfl⟩
        · exact .inl rfl
    · exact .inl rfl

theorem history_step {label : Label} (taken : stream.step label = some next) :
    next.history = stream.history ∨ ∃ op, next.history = stream.history.apply op := by
  cases label with
  | pollWrite data =>
    obtain ⟨_, result⟩ := ite_none_right_eq_some.mp taken
    cases result
    unfold BlobSenderStream.pollWrite
    split
    · exact .inl rfl
    · exact .inr ⟨.push data, rfl⟩
  | pollFlush | pollShutdown =>
    obtain ⟨_, result⟩ := ite_none_right_eq_some.mp taken
    cases result
    exact .inl rfl
  | resume expired =>
    simp only [step, resume] at taken
    split at taken
    · cases taken
    · split at taken <;> cases taken <;> exact .inl rfl
    · split at taken <;> cases taken <;> exact .inl rfl
    · cases taken
      exact history_resumeShutdown stream expired _
  | unlist =>
    cases taken
    exact .inl rfl
  | lease | markInflight | loseCallis | handleAck | handleError | handleComplete | fail =>
    have applied (op : RingOp) : (stream.onRing op).history = stream.history.apply op := rfl
    cases taken
    exact .inr ⟨_, applied _⟩

theorem history_of_reachable (reached : (system size).Reachable stream) :
    ∃ ops, stream.history = .of size ops := by
  refine @Machine.System.Reachable.invariant _ _ _
    (fun stream => ∃ ops, stream.history = .of size ops) ?_ ?_ _ reached
  · rintro _ rfl
    exact ⟨[], rfl⟩
  · rintro _ _ _ ⟨ops, same⟩ taken
    rcases history_step taken with kept | ⟨op, applied⟩
    · exact ⟨ops, kept.trans same⟩
    · refine ⟨ops ++ [op], ?_⟩
      rw [applied, same, OutboundHistory.of, OutboundHistory.of, List.foldl_concat]

theorem closed_of_shutdown {phase : ShutdownPhase}
    (pending : stream.pending = some (.shutdown phase))
    (ended : (stream.resumeShutdown expired phase).pending = none)
    (succeeded : (stream.resumeShutdown expired phase).shutdowns.getLast? = some (.ok ())) :
    (stream.resumeShutdown expired phase).closed = true := by
  cases phase with
  | start =>
    simp only [resumeShutdown] at *
    split at ended
    · rename_i closed
      rw [if_pos closed]
      exact closed
    · cases ended
  | sealing =>
    simp only [resumeShutdown] at *
    split at ended
    · cases ended
    · rename_i failed
      simp [failed, finishShutdown] at succeeded
    · cases ended
  | waitingCapacity =>
    simp only [resumeShutdown] at *
    split at ended <;> simp_all [finishShutdown]
  | waitingComplete =>
    simp only [resumeShutdown] at *
    split
    · simp only [finishShutdown, cleanup]
      split
      · assumption
      · rfl
    · simp_all

/-- A turn that makes `poll_flush` succeed leaves the stream closed, or open and without a failure
and a chunk in flight. -/
theorem drained_of_flushed (taken : stream.resume expired = some next)
    (flushed : stream.pollFlush expired = some (.ok ())) :
    next.closed = true ∨ next.history.ring.lifecycle.failure = none ∧
      next.history.ring.chunks.inflight = 0 := by
  unfold BlobSenderStream.pollFlush at flushed
  unfold BlobSenderStream.resume at taken
  split at flushed
  · rename_i pending
    obtain ⟨closed, history⟩ : next.closed = stream.closed ∧ next.history = stream.history := by
      simp only [pending] at taken
      split at taken <;> cases taken <;> exact ⟨rfl, rfl⟩
    rw [closed, history]
    split at flushed
    · rename_i isClosed
      exact .inl isClosed
    · have drained := waitForDeadline_ok flushed
      unfold OutboundRingBuffer.checkInflightDrain at drained
      split at drained
      · cases drained
      · rename_i unfailed
        exact .inr ⟨unfailed, (ite_none_right_eq_some.mp drained).1⟩
  · rename_i phase pending
    simp only [pending] at taken
    cases taken
    obtain ⟨ended, succeeded⟩ := ite_none_right_eq_some.mp flushed
    exact .inl (closed_of_shutdown pending ended succeeded)
  · cases flushed

/-- When `poll_flush` succeeds on a stream that has not failed, no chunk is in flight or the stream
is closed, and every accepted byte is in an acknowledged chunk, in a chunk of the window or staged.
Nothing is staged exactly if nothing was accepted or the last chunk was made: that is so while the
completion is awaited, and never before the stream is sealed. -/
theorem flush_success (reached : (system size).Reachable stream)
    (taken : stream.resume expired = some next)
    (flushed : stream.pollFlush expired = some (.ok ()))
    (unfailed : next.closed = true → next.history.ring.lifecycle.failure = none)
    (small : next.history.ring.chunks.nextChunkId < u64Max) :
    let history := next.history
    (next.closed = true ∨ history.ring.chunks.inflight = 0) ∧
    (∃ created, history.Located created) ∧
    (history.Unstaged ↔ history.accepted = [] ∨
      ∃ last, history.Carries last ∧ last.isLast = true) ∧
    (history.ring.lifecycle = .awaitingComplete → history.Unstaged) ∧
    (history.ring.lifecycle = .opened ∨ history.ring.lifecycle = .sealing →
      (history.Unstaged ↔ history.accepted = [])) := by
  intro history
  have drained := drained_of_flushed taken flushed
  obtain ⟨ops, same⟩ := history_of_reachable (reached.take (.resume expired) taken)
  have healthy : history.ring.lifecycle.failure = none :=
    drained.elim unfailed And.left
  have kept := OutboundHistory.located_of size ops (same ▸ healthy) (same ▸ small)
  rw [← same] at kept
  obtain ⟨created, located, sound, unstaged_iff⟩ := kept
  refine ⟨drained.imp_right And.right, ⟨created, located⟩, ?_, fun awaiting => ?_, fun early => ?_⟩
  · simpa only [located.carries] using unstaged_iff
  · exact ⟨(sound.sealed awaiting).noPending, (sound.sealed awaiting).noPartial⟩
  · rw [unstaged_iff, or_iff_left]
    rintro ⟨last, made, isLast⟩
    cases ((sound.unsealed early).unflagged last made).symm.trans isLast

/-- A flush while a shutdown is pending, which ends with the completion of the stream. -/
theorem flush_success_byte : ∃ stream next, (system pairs).Reachable stream ∧
    stream.resume false = some next ∧ stream.pollFlush false = some (.ok ()) ∧
    next.history.accepted = [1] ∧ next.closed = true ∧
    next.history.acknowledged = [⟨0, [1], true⟩] ∧
    (∃ created, next.history.Located created) ∧ next.history.Unstaged := by
  have initial : (system pairs).Reachable (new pairs) := .start rfl
  have reached := initial.exec (fun _ _ _ taken => taken) acknowledgedByte.dropLast rfl
  obtain ⟨_, located, unstaged_iff, _, _⟩ :=
    @flush_success pairs _ _ false reached rfl rfl (fun _ => rfl) (by decide)
  exact ⟨_, _, reached, rfl, rfl, rfl, rfl, rfl, located,
    unstaged_iff.mpr (.inr ⟨⟨0, [1], true⟩, .inl (by decide), rfl⟩)⟩

/-- A byte is accepted, and a flush succeeds at once while the byte is in the write buffer. -/
theorem flush_leaves_partial_chunk : ∃ stream,
    Machine.exec step (new pairs) [.pollWrite [7], .pollFlush] = some stream ∧
      stream.pollFlush false = some (.ok ()) ∧ stream.history.accepted = [7] ∧
      stream.history.ring.chunks.writeBuf = [7] ∧
      ∀ slot ∈ stream.history.ring.chunks.slots, slot.chunk? = none :=
  ⟨_, rfl, rfl, rfl, rfl, by decide⟩

end AureliaPeering.Blob.BlobSenderStream
