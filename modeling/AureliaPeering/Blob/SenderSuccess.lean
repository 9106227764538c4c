import AureliaPeering.Blob.SenderStream

/-!
What a successful shutdown of a sender stream means.
-/

namespace AureliaPeering.Ring.OutboundHistory

/-- Every accepted byte is in one of the chunks materialised, the final one is flagged as the last,
and the peer has acknowledged the current attempt of each of them. -/
structure FullyAcknowledged (history : OutboundHistory) (chunks : List Chunk) : Prop where
  numbered : ∀ (index : Nat) (chunk : Chunk),
    chunks[index]? = some chunk → chunk.chunkId = min index u64Max
  counted : history.ring.chunks.nextChunkId = min chunks.length u64Max
  bytes : chunks.flatMap Chunk.data = history.accepted
  last : ∃ last, chunks.getLast? = some last ∧ last.isLast = true
  acknowledged : ∀ chunk ∈ chunks, chunk ∈ history.acknowledged

section Steps

variable {history : OutboundHistory} {created : List Chunk}

theorem Sound.sealed_of_flagged (sound : history.Sound created)
    (flagged : ∃ chunk ∈ created, chunk.isLast = true) : history.ring.chunks.Sealed created := by
  obtain ⟨chunk, listed, isLast⟩ := flagged
  refine sound.staged.resolve_left fun unsealed => ?_
  simpa [isLast] using unsealed.unflagged chunk listed

theorem Sound.fullyAcknowledged (sound : history.Sound created)
    (flagged : ∃ chunk ∈ created, chunk.isLast = true)
    (acknowledged : ∀ chunk ∈ created, chunk ∈ history.acknowledged) :
    history.FullyAcknowledged created := by
  have sealed := sound.sealed_of_flagged flagged
  refine ⟨sound.assembled.numbered, sound.assembled.counted, ?_, ?_, acknowledged⟩
  · have bytes := sound.assembled.bytes
    rw [sealed.noPending, sealed.noPartial] at bytes
    simpa using bytes
  · obtain ⟨_, last, rfl, isLast, _⟩ := sealed.flagged
    exact ⟨last, by simp, isLast⟩

theorem lifecycle_apply (op : RingOp) (notComplete : op ≠ .complete) (notClose : op ≠ .close)
    (ended : (history.apply op).ring.lifecycle = .completed ∨
      (history.apply op).ring.lifecycle = .closed) :
    (history.apply op).ring.lifecycle = history.ring.lifecycle := by
  cases op with
  | push data =>
    rcases history.ring.tryPushAvailable_cases data with ⟨ring, _⟩ | ⟨_, ring, _⟩
    all_goals simp [apply, ring]
  | sealTurn =>
    rcases history.ring.sealTurn_cases with ⟨_, turn, _⟩ | ⟨_, ⟨_, _, turn⟩ | ⟨_, _, _, turn⟩⟩
    · simp [apply, turn]
    all_goals simp [apply, turn] at ended
  | lease callisId peerMsgId =>
    rcases history.lease_cases callisId peerMsgId with unchanged | ⟨_, _, _, _, leased⟩
    · rw [unchanged]
    · rw [leased]
  | markInflight | loseCallis | ack => rfl
  | error =>
    rcases ended with ended | ended <;> cases ended
  | fail error =>
    cases lifecycle : history.ring.lifecycle <;>
      simp [apply, OutboundRingBuffer.fail, lifecycle, OutboundLifecycle.markFailed] at ended
  | complete => exact absurd rfl notComplete
  | close => exact absurd rfl notClose

end Steps

end AureliaPeering.Ring.OutboundHistory

namespace AureliaPeering.Blob.BlobSenderStream

open AureliaPeering.Ring Option

/-- The peer completes the stream only after its last chunk was materialised, and the sender does
not shut a stream down again after a shutdown that closed it with an error. -/
def Orderly (stream : BlobSenderStream) : Label → Prop
  | .handleComplete =>
    stream.history.ring.lifecycle ≠ .opened ∧ stream.history.ring.lifecycle ≠ .sealing
  | .pollShutdown => stream.closed = true → .ok () ∈ stream.shutdowns
  | _ => True

instance (stream : BlobSenderStream) (label : Label) : Decidable (stream.Orderly label) :=
  match label with
  | .handleComplete => inferInstanceAs (Decidable (_ ∧ _))
  | .pollShutdown => inferInstanceAs (Decidable (_ → _))
  | .pollWrite _ | .pollFlush | .resume _ | .lease .. | .markInflight _ | .loseCallis _
  | .handleAck _ | .handleError .. | .fail _ | .unlist => .isTrue trivial

/-- What an orderly run preserves, with `created` the chunks materialised so far. -/
structure Accounted (stream : BlobSenderStream) (created : List Chunk) : Prop where
  sound : stream.history.Sound created
  tracked : stream.history.Tracked created
  listening : stream.closed = false → stream.history.ring.lifecycle ≠ .closed
  flagged : stream.closed = false → stream.history.ring.lifecycle = .completed →
    ∃ chunk ∈ created, chunk.isLast = true
  active : ∀ phase, stream.pending = some (.shutdown phase) →
    stream.closed = true → phase = .start ∧ .ok () ∈ stream.shutdowns
  succeeded : .ok () ∈ stream.shutdowns → stream.closed = true ∧
    (∃ chunk ∈ created, chunk.isLast = true) ∧
    ∀ chunk ∈ created, chunk ∈ stream.history.acknowledged

section Steps

variable {stream : BlobSenderStream} {created : List Chunk}
variable {next : BlobSenderStream}

theorem Accounted.start (size : RingSize) : (new size).Accounted [] :=
  ⟨.start size, .start size _, nofun, nofun, nofun, nofun⟩

variable (accounted : stream.Accounted created)

include accounted

theorem Accounted.onRing (op : RingOp) (notClose : op ≠ .close)
    (orderly : op = .complete →
      stream.history.ring.lifecycle ≠ .opened ∧ stream.history.ring.lifecycle ≠ .sealing)
    (assembles : stream.closed = true → (∀ data, op ≠ .push data) ∧ op ≠ .sealTurn) :
    ∃ new, (stream.onRing op).Accounted (created ++ new) := by
  obtain ⟨new, adds, sound⟩ := accounted.sound.apply op
  have tracked := accounted.tracked.apply adds
  have extend (found : ∃ chunk ∈ created, chunk.isLast = true) :
      ∃ chunk ∈ created ++ new, chunk.isLast = true := by
    obtain ⟨chunk, listed, isLast⟩ := found
    exact ⟨chunk, List.mem_append_left new listed, isLast⟩
  refine ⟨new, sound, tracked, ?_, ?_, accounted.active, ?_⟩
  · intro opened now
    by_cases completes : op = .complete
    · subst completes
      cases lifecycle : stream.history.ring.lifecycle <;>
        simp [BlobSenderStream.onRing, OutboundHistory.apply, OutboundRingBuffer.markComplete,
          OutboundLifecycle.markComplete, lifecycle] at now
    · exact accounted.listening opened
        ((OutboundHistory.lifecycle_apply op completes notClose (.inr now)).symm.trans now)
  · intro opened now
    by_cases completes : op = .complete
    · subst completes
      refine extend ?_
      cases lifecycle : stream.history.ring.lifecycle with
      | opened => exact absurd lifecycle (orderly rfl).1
      | sealing => exact absurd lifecycle (orderly rfl).2
      | awaitingComplete =>
        obtain ⟨_, last, rfl, isLast, _⟩ := (accounted.sound.sealed lifecycle).flagged
        exact ⟨last, by simp, isLast⟩
      | completed => exact accounted.flagged opened lifecycle
      | failed error =>
        simp [BlobSenderStream.onRing, OutboundHistory.apply, OutboundRingBuffer.markComplete,
          OutboundLifecycle.markComplete, lifecycle] at now
      | closed => exact absurd lifecycle (accounted.listening opened)
    · exact extend (accounted.flagged opened
        ((OutboundHistory.lifecycle_apply op completes notClose (.inl now)).symm.trans now))
  · intro done
    obtain ⟨closed, flagged, acknowledged⟩ := accounted.succeeded done
    obtain rfl : new = [] := by
      obtain _ := assembles closed
      cases op <;> simp_all [OutboundHistory.Adds]
    rw [List.append_nil]
    exact ⟨closed, flagged, fun chunk listed =>
      OutboundHistory.acknowledged_apply op (acknowledged chunk listed)⟩

/-- A future that has not passed the check of `closed` may be started or dropped. -/
theorem Accounted.repend (pending : Option PendingOp)
    (active : ∀ phase, pending = some (.shutdown phase) → stream.closed = true →
      phase = .start ∧ .ok () ∈ stream.shutdowns) :
    { stream with pending := pending }.Accounted created :=
  ⟨accounted.sound, accounted.tracked, accounted.listening, accounted.flagged, active,
    accounted.succeeded⟩

theorem Accounted.finishError (error : AureliaError) :
    (stream.finishShutdown (.error error)).Accounted created := by
  refine ⟨accounted.sound, accounted.tracked, accounted.listening, accounted.flagged, nofun, ?_⟩
  intro done
  exact accounted.succeeded (by simpa [finishShutdown] using done)

/-- A shutdown that passed the check of `closed` ends: the stream is closed, and closing its ring
changes no chunk. -/
theorem Accounted.finish (opened : stream.closed = false) (result : Except AureliaError Unit)
    (success : result = .ok () → (∃ chunk ∈ created, chunk.isLast = true) ∧
      ∀ chunk ∈ created, chunk ∈ stream.history.acknowledged) :
    (stream.cleanup.finishShutdown result).Accounted created := by
  obtain ⟨sound, tracked, acknowledged⟩ : stream.cleanup.history.Sound created ∧
      stream.cleanup.history.Tracked created ∧
      stream.cleanup.history.acknowledged = stream.history.acknowledged := by
    simp only [cleanup, opened]
    by_cases registered : stream.registered
    · obtain ⟨new, adds, sound⟩ := accounted.sound.apply .close
      have tracked := accounted.tracked.apply adds
      obtain rfl : new = [] := adds
      simp only [registered, if_true]
      exact ⟨by simpa using sound, by simpa using tracked, rfl⟩
    · simp only [registered]
      exact ⟨accounted.sound, accounted.tracked, rfl⟩
  have closed : stream.cleanup.closed = true := by simp [cleanup, opened]
  have before : stream.cleanup.shutdowns = stream.shutdowns := by simp [cleanup, opened]
  refine ⟨sound, tracked, ?_, ?_, nofun, ?_⟩
  · exact fun still => absurd (closed.symm.trans still) nofun
  · exact fun still => absurd (closed.symm.trans still) nofun
  · intro done
    rcases List.mem_append.mp (before ▸ done : .ok () ∈ stream.shutdowns ++ [result]) with old | new
    · exact absurd ((accounted.succeeded old).1.symm.trans opened) nofun
    · obtain ⟨flagged, all⟩ := success (List.mem_singleton.mp new).symm
      exact ⟨closed, flagged, fun chunk listed => acknowledged.symm ▸ all chunk listed⟩

omit accounted

theorem waitForDeadline_ok {check : Option (Except AureliaError Unit)} {expired : Bool}
    (done : waitForDeadline check expired = some (.ok ())) : check = some (.ok ()) := by
  unfold waitForDeadline at done
  split at done
  · exact done
  · split at done <;> cases done

theorem checkComplete_ok {ring : OutboundRingBuffer} (done : ring.checkComplete = some (.ok ())) :
    ring.lifecycle = .completed ∧ ring.chunks.isDrained = true := by
  unfold OutboundRingBuffer.checkComplete at done
  split at done
  · cases done
  · split at done
    · assumption
    · cases done

include accounted

theorem Accounted.complete (opened : stream.closed = false)
    (done : stream.history.ring.checkComplete = some (.ok ())) :
    (∃ chunk ∈ created, chunk.isLast = true) ∧
      ∀ chunk ∈ created, chunk ∈ stream.history.acknowledged := by
  obtain ⟨completed, drained⟩ := checkComplete_ok done
  refine ⟨accounted.flagged opened completed, fun chunk listed => ?_⟩
  rcases accounted.tracked.settled_of_drained drained chunk listed with acknowledged | failed
  · exact acknowledged
  · simp [completed, OutboundLifecycle.failure] at failed

theorem Accounted.resumeShutdown (expired : Bool) (phase : ShutdownPhase)
    (pending : stream.pending = some (.shutdown phase)) :
    ∃ new, (stream.resumeShutdown expired phase).Accounted (created ++ new) := by
  have same (kept : (stream.resumeShutdown expired phase).Accounted created) :
      ∃ new, (stream.resumeShutdown expired phase).Accounted (created ++ new) :=
    ⟨[], by simpa using kept⟩
  have past (later : phase ≠ .start) : stream.closed = false := by
    cases closed : stream.closed with
    | false => rfl
    | true => exact absurd (accounted.active phase pending closed).1 later
  cases phase with
  | start =>
    refine same ?_
    simp only [BlobSenderStream.resumeShutdown]
    split
    · rename_i closed
      have earlier := (accounted.active .start pending closed).2
      exact ⟨accounted.sound, accounted.tracked, accounted.listening, accounted.flagged, nofun,
        fun _ => accounted.succeeded earlier⟩
    · rename_i opened
      exact accounted.repend _ fun _ _ closed => absurd closed opened
  | sealing =>
    have opened := past nofun
    obtain ⟨new, sealed⟩ := accounted.onRing .sealTurn nofun nofun
      fun closed => absurd (closed.symm.trans opened) nofun
    refine ⟨new, ?_⟩
    simp only [BlobSenderStream.resumeShutdown]
    split
    · exact sealed.repend _ fun _ _ closed => absurd (closed.symm.trans opened) nofun
    · exact sealed.finishError _
    · exact sealed.repend _ fun _ _ closed => absurd (closed.symm.trans opened) nofun
  | waitingCapacity =>
    refine same ?_
    have opened := past nofun
    simp only [BlobSenderStream.resumeShutdown]
    split
    · exact accounted.repend _ fun _ _ closed => absurd (closed.symm.trans opened) nofun
    · exact accounted.finishError _
    · exact accounted
  | waitingComplete =>
    refine same ?_
    have opened := past nofun
    simp only [BlobSenderStream.resumeShutdown]
    split
    · rename_i result waited
      refine accounted.finish opened result ?_
      rintro rfl
      exact accounted.complete opened (waitForDeadline_ok waited)
    · exact accounted

theorem Accounted.pollWrite (data : Bytes) :
    ∃ new, (stream.pollWrite data).Accounted (created ++ new) := by
  unfold BlobSenderStream.pollWrite
  split
  · exact ⟨[], by simpa using accounted⟩
  · rename_i accepts
    push Not at accepts
    obtain ⟨new, pushed⟩ := accounted.onRing (.push data) nofun nofun
      fun closed => absurd closed accepts.2
    refine ⟨new, pushed.repend _ fun phase pending => ?_⟩
    split at pending <;> cases pending

theorem Accounted.resume (expired : Bool) (taken : stream.resume expired = some next) :
    ∃ new, next.Accounted (created ++ new) := by
  have same (kept : next.Accounted created) : ∃ new, next.Accounted (created ++ new) :=
    ⟨[], by simpa using kept⟩
  unfold BlobSenderStream.resume at taken
  split at taken
  · cases taken
  · split at taken
    all_goals obtain rfl := some.inj taken
    · exact same (accounted.repend _ nofun)
    · exact same accounted
  · split at taken
    all_goals obtain rfl := some.inj taken
    · exact same (accounted.repend _ nofun)
    · exact same accounted
  · rename_i phase pending
    cases taken
    exact accounted.resumeShutdown expired phase pending

theorem Accounted.step {label : Label} (taken : stream.step label = some next)
    (orderly : stream.Orderly label) : ∃ new, next.Accounted (created ++ new) := by
  have same (kept : next.Accounted created) : ∃ new, next.Accounted (created ++ new) :=
    ⟨[], by simpa using kept⟩
  cases label with
  | pollWrite data =>
    obtain ⟨_, result⟩ := ite_none_right_eq_some.mp taken
    cases result
    exact accounted.pollWrite data
  | pollFlush =>
    obtain ⟨_, result⟩ := ite_none_right_eq_some.mp taken
    cases result
    exact same (accounted.repend _ nofun)
  | pollShutdown =>
    obtain ⟨_, result⟩ := ite_none_right_eq_some.mp taken
    cases result
    refine same (accounted.repend _ ?_)
    rintro _ ⟨⟩ closed
    exact ⟨rfl, orderly closed⟩
  | resume expired => exact accounted.resume expired taken
  | unlist =>
    cases taken
    exact same ⟨accounted.sound, accounted.tracked, accounted.listening, accounted.flagged,
      accounted.active, accounted.succeeded⟩
  | handleComplete =>
    cases taken
    exact accounted.onRing .complete nofun (fun _ => orderly) fun _ => ⟨nofun, nofun⟩
  | lease | markInflight | loseCallis | handleAck | handleError | fail =>
    cases taken
    exact accounted.onRing _ nofun nofun fun _ => ⟨nofun, nofun⟩

end Steps

theorem accounted_of_orderly {size : RingSize} {stream : BlobSenderStream}
    (reached : ((system size).restrict Orderly).Reachable stream) :
    ∃ created, stream.Accounted created := by
  refine @Machine.System.Reachable.invariant _ _ _
    (fun stream => ∃ created, stream.Accounted created) ?_ ?_ _ reached
  · rintro _ rfl
    exact ⟨[], .start size⟩
  · rintro _ _ _ ⟨created, accounted⟩ ⟨taken, orderly⟩
    obtain ⟨new, kept⟩ := accounted.step taken orderly
    exact ⟨created ++ new, kept⟩

/-- In an orderly run a shutdown that succeeds leaves no byte of the stream behind, and no chunk
unacknowledged. -/
theorem orderly_shutdown_fully_acknowledged (size : RingSize) (stream : BlobSenderStream)
    (reached : ((system size).restrict Orderly).Reachable stream)
    (succeeded : .ok () ∈ stream.shutdowns) :
    ∃ chunks, stream.history.FullyAcknowledged chunks := by
  obtain ⟨created, accounted⟩ := accounted_of_orderly reached
  obtain ⟨_, flagged, acknowledged⟩ := accounted.succeeded succeeded
  exact ⟨created, accounted.sound.fullyAcknowledged flagged acknowledged⟩

def pairs : RingSize := ⟨2, 2, Nat.two_pos, Nat.two_pos⟩

def acknowledgedByte : List Label :=
  [.pollWrite [1], .pollShutdown, .resume false, .resume false, .lease 7 100,
    .markInflight ⟨⟨0, [1], true⟩, 100, 7, 1⟩, .handleAck 100, .handleComplete, .resume false]

theorem orderly_shutdown_fully_acknowledged_byte :
    ∃ stream, Machine.exec (Machine.guarded Orderly step) (new pairs) acknowledgedByte =
        some stream ∧ stream.history.accepted = [1] ∧
      ∃ chunks, stream.history.FullyAcknowledged chunks := by
  have ends : (Machine.exec (Machine.guarded Orderly step) (new pairs) acknowledgedByte).any
      (fun stream => decide (.ok () ∈ stream.shutdowns) && stream.history.accepted == [1]) =
        true := by
    decide
  obtain ⟨stream, ran, observed⟩ := (any_eq_true _ _).mp ends
  obtain ⟨succeeded, accepted⟩ := Bool.and_eq_true_iff.mp observed
  have initial : ((system pairs).restrict Orderly).Reachable (new pairs) := .start rfl
  exact ⟨stream, ran, eq_of_beq accepted, orderly_shutdown_fully_acknowledged pairs stream
    (initial.guarded acknowledgedByte ran) (of_decide_eq_true succeeded)⟩

def completedEarly : List Label :=
  [.pollWrite [1], .handleComplete, .pollShutdown, .resume false, .resume false, .resume false]

/-- The completion makes `seal` believe that the last chunk was materialised, and an empty window
counts as drained although a byte is still staged. -/
theorem early_completion_loses_staged_byte :
    ¬ ∀ (size : RingSize) (stream : BlobSenderStream), (system size).Reachable stream →
      .ok () ∈ stream.shutdowns → ∃ chunks, stream.history.FullyAcknowledged chunks := by
  intro always
  have ends : (Machine.exec step (new pairs) completedEarly).any (fun stream =>
      decide (.ok () ∈ stream.shutdowns) && (stream.history.accepted == [1] &&
        stream.history.ring.chunks.nextChunkId == 0)) = true := by decide
  obtain ⟨stream, ran, observed⟩ := (any_eq_true _ _).mp ends
  simp only [Bool.and_eq_true, decide_eq_true_eq, beq_iff_eq] at observed
  obtain ⟨succeeded, accepted, unsent⟩ := observed
  have initial : (system pairs).Reachable (new pairs) := .start rfl
  obtain ⟨chunks, acknowledged⟩ := always pairs stream
    (initial.exec (fun _ _ _ taken => taken) completedEarly ran) succeeded
  have counted := acknowledged.counted
  rw [unsent] at counted
  obtain rfl : chunks = [] := List.length_eq_zero_iff.mp (by
    simp only [u64Max, u64Limit] at counted
    omega)
  simpa [accepted] using acknowledged.bytes

end AureliaPeering.Blob.BlobSenderStream
