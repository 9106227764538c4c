import AureliaPeering.Ring.Tracking

/-!
Streams that were closed or have failed.

A failure is final.  A close is not: `mark_complete` only looks for a failure, so that a late
completion of the peer turns a closed stream into a completed one, which drains its chunks again.
-/

namespace AureliaPeering.Ring

open OutboundLifecycle

namespace OutboundLifecycle

variable {lifecycle : OutboundLifecycle}

theorem stopped_iff : lifecycle.canDrainChunks = false ↔
    lifecycle = .closed ∨ ∃ error, lifecycle = .failed error := by
  cases lifecycle <;> simp [canDrainChunks]

theorem ended_of_stopped (stopped : lifecycle.canDrainChunks = false) : lifecycle.Ended := by
  rcases stopped_iff.mp stopped with rfl | ⟨_, rfl⟩ <;> trivial

end OutboundLifecycle

namespace OutboundHistory

variable {history : OutboundHistory}

theorem stopped_apply (op : RingOp) (stopped : history.ring.lifecycle.canDrainChunks = false)
    (kept : op ≠ .complete ∨ history.ring.lifecycle.failure.isSome) :
    (history.apply op).ring.lifecycle.canDrainChunks = false ∧
      (history.apply op).accepted = history.accepted ∧
      (history.apply op).leases = history.leases := by
  obtain ⟨marked, accepted⟩ := apply_of_ended op (ended_of_stopped stopped)
  refine ⟨?_, accepted, ?_⟩
  · rw [marked]
    rcases stopped_iff.mp stopped with closed | ⟨error, failed⟩
    · rw [closed] at kept ⊢
      cases op with
      | complete => exact absurd rfl (kept.resolve_right nofun)
      | _ => rfl
    · rw [failed]
      cases op <;> rfl
  · cases op with
    | lease callisId peerMsgId =>
      rcases history.lease_cases callisId peerMsgId with unchanged | ⟨_, _, drains, _⟩
      · rw [unchanged]
      · cases stopped.symm.trans drains
    | _ => rfl

theorem stopped_foldl (ops : List RingOp) (stopped : history.ring.lifecycle.canDrainChunks = false)
    (kept : .complete ∉ ops ∨ history.ring.lifecycle.failure.isSome) :
    (ops.foldl apply history).ring.lifecycle.canDrainChunks = false ∧
      (ops.foldl apply history).accepted = history.accepted ∧
      (ops.foldl apply history).leases = history.leases ∧
      (history.ring.lifecycle.failure.isSome →
        (ops.foldl apply history).ring.lifecycle.failure.isSome) := by
  induction ops generalizing history with
  | nil => exact ⟨stopped, rfl, rfl, id⟩
  | cons op rest ih =>
    rw [List.mem_cons, not_or] at kept
    obtain ⟨stays, accepted, leases⟩ :=
      stopped_apply op stopped (kept.imp_left fun apart => Ne.symm apart.1)
    obtain ⟨stopped, sameBytes, sameLeases, failure⟩ :=
      ih stays (kept.imp (·.2) (failure_apply op))
    exact ⟨stopped, sameBytes.trans accepted, sameLeases.trans leases,
      fun failed => failure (failure_apply op failed)⟩

theorem stopped_stop {stop : RingOp} (stops : stop = .close ∨ ∃ error, stop = .fail error) :
    (history.apply stop).ring.lifecycle.canDrainChunks = false := by
  rcases stops with rfl | ⟨error, rfl⟩
  · change history.ring.lifecycle.markClosed.canDrainChunks = false
    cases history.ring.lifecycle <;> rfl
  · change (history.ring.lifecycle.markFailed error).canDrainChunks = false
    cases history.ring.lifecycle <;> rfl

/-- After a `close` or a `fail`, and any operations among which no completion comes to a stream that
has not failed: no byte was accepted and no chunk leased, no push, lease, `seal` or wait for
completion succeeds, and a failed stream reports a failure. -/
theorem stopped_stays_stopped (history : OutboundHistory) (stop : RingOp)
    (stops : stop = .close ∨ ∃ error, stop = .fail error) (ops : List RingOp)
    (uncompleted : .complete ∉ ops ∨ (history.apply stop).ring.lifecycle.failure.isSome) :
    let stopped := history.apply stop
    let later := ops.foldl apply stopped
    later.accepted = stopped.accepted ∧ later.leases = stopped.leases ∧
    later.ring.lifecycle ≠ .completed ∧ later.ring.checkComplete ≠ some (.ok ()) ∧
    (∀ callisId peerMsgId, later.ring.leaseNextChunkForWrite callisId peerMsgId = none) ∧
    ∃ error, later.ring.sealTurn = (later.ring, .done (.error error)) ∧
      (∀ data, later.ring.tryPushAvailable data = (later.ring, .error error)) ∧
      (stopped.ring.lifecycle.failure.isSome → later.ring.checkComplete = some (.error error)) := by
  intro stopped later
  obtain ⟨stays, accepted, leases, failure⟩ := stopped_foldl ops (stopped_stop stops) uncompleted
  refine ⟨accepted, leases, ?_⟩
  change later.ring.lifecycle.canDrainChunks = false at stays
  change _ → later.ring.lifecycle.failure.isSome at failure
  generalize later.ring = ring at stays failure ⊢
  obtain ⟨lifecycle, chunks⟩ := ring
  rcases stopped_iff.mp stays with rfl | ⟨error, rfl⟩
  · exact ⟨nofun, nofun, fun _ _ => rfl, _, rfl, fun _ => rfl, fun failed => nomatch failure failed⟩
  · exact ⟨nofun, nofun, fun _ _ => rfl, error, rfl, fun _ => rfl, fun _ => rfl⟩

theorem stopped_stays_stopped_closed :
    let later := [.push [8], .sealTurn, .ack 5].foldl apply
      (((new ⟨2, 1, Nat.two_pos, Nat.one_pos⟩).apply (.push [7])).apply .close)
    later.accepted = [7] ∧ later.ring.checkComplete ≠ some (.ok ()) := by
  obtain ⟨accepted, _, _, incomplete, _⟩ := stopped_stays_stopped
    ((new ⟨2, 1, Nat.two_pos, Nat.one_pos⟩).apply (.push [7])) .close (.inl rfl)
    [.push [8], .sealTurn, .ack 5] (.inl (by decide))
  exact ⟨accepted, incomplete⟩

/-- A completion after the close: the stream hands out the chunk that it holds, and once nothing is
held the wait for completion succeeds. -/
theorem completion_reopens_closed :
    let stream := [.push [7], .sealTurn, .close].foldl apply
      (new ⟨2, 1, Nat.two_pos, Nat.one_pos⟩)
    stream.ring.lifecycle = .closed ∧ stream.ring.checkComplete = none ∧
      (stream.apply .complete).ring.lifecycle = .completed ∧
      (((stream.apply .complete).apply (.lease 1 5)).leases).length = 1 ∧
      ([.complete, .lease 1 5, .markInflight ⟨⟨0, [7], true⟩, 5, 1, 1⟩, .ack 5].foldl apply
        stream).ring.checkComplete = some (.ok ()) := by
  decide

end OutboundHistory

end AureliaPeering.Ring
