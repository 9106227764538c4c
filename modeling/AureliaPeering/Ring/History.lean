import AureliaPeering.Ring.Assembly
import AureliaPeering.Ring.OutboundRing

/-!
Whole runs of an outbound ring.

A history is the ring together with what it has done so far: the bytes it accepted, the leases it
handed out, and the chunks whose current write attempt was acknowledged.
-/

namespace AureliaPeering.Ring

open OutboundLifecycle

def OutboundChunks.attempts (chunks : OutboundChunks) (peerMsgId : PeerMessageId) : List Chunk :=
  chunks.slots.filterMap fun slot =>
    match slot with
    | .inFlight chunk current _ _ => if current = peerMsgId then some chunk else none
    | _ => none

structure OutboundHistory where
  ring : OutboundRingBuffer
  accepted : Bytes
  leases : List ChunkWriteLease
  acknowledged : List Chunk

inductive RingOp where
  | push (data : Bytes)
  | sealTurn
  | lease (callisId : CallisId) (peerMsgId : PeerMessageId)
  | markInflight (lease : ChunkWriteLease)
  | loseCallis (callisId : CallisId)
  | ack (peerMsgId : PeerMessageId)
  | error (peerMsgId : PeerMessageId) (error : AureliaError)
  | complete
  | fail (error : AureliaError)
  | close
deriving DecidableEq, Repr

def TryPushAvailable.taken (data : Bytes) : Except AureliaError TryPushAvailable → Bytes
  | .ok (.accepted bytes) => data.take bytes
  | _ => []

namespace OutboundHistory

def new (size : RingSize) : OutboundHistory := ⟨.new size, [], [], []⟩

def apply (history : OutboundHistory) : RingOp → OutboundHistory
  | .push data =>
    let (ring, result) := history.ring.tryPushAvailable data
    { history with
      ring := ring
      accepted := history.accepted ++ TryPushAvailable.taken data result }
  | .sealTurn => { history with ring := history.ring.sealTurn.1 }
  | .lease callisId peerMsgId =>
    match history.ring.leaseNextChunkForWrite callisId peerMsgId with
    | none => history
    | some (lease, ring) => { history with ring := ring, leases := history.leases ++ [lease] }
  | .markInflight lease => { history with ring := history.ring.markChunkInflight lease }
  | .loseCallis callisId => { history with ring := history.ring.markCallisReplayReady callisId }
  | .ack peerMsgId =>
    { history with
      ring := history.ring.noteAck peerMsgId
      acknowledged := history.acknowledged ++ history.ring.chunks.attempts peerMsgId }
  | .error peerMsgId error => { history with ring := history.ring.noteError peerMsgId error }
  | .complete => { history with ring := history.ring.markComplete }
  | .fail error => { history with ring := history.ring.fail error }
  | .close => { history with ring := history.ring.close }

end OutboundHistory

/-- The lifecycles after which the ring waits for nothing more. -/
def OutboundLifecycle.Ended : OutboundLifecycle → Prop
  | completed | failed _ | closed => True
  | opened | sealing | awaitingComplete => False

theorem OutboundLifecycle.markComplete_ended (lifecycle : OutboundLifecycle) :
    lifecycle.markComplete.Ended := by
  cases lifecycle <;> trivial

theorem OutboundLifecycle.markFailed_ended (error : AureliaError) (lifecycle : OutboundLifecycle) :
    (lifecycle.markFailed error).Ended := by
  cases lifecycle <;> trivial

theorem OutboundLifecycle.markClosed_ended (lifecycle : OutboundLifecycle) :
    lifecycle.markClosed.Ended := by
  cases lifecycle <;> trivial

/-- What an operation makes of the lifecycle of a stream that has ended. -/
def RingOp.mark : RingOp → OutboundLifecycle → OutboundLifecycle
  | .error _ cause => replaceFailure cause
  | .complete => markComplete
  | .fail cause => markFailed cause
  | .close => markClosed
  | _ => id

/-- A push either takes nothing and changes nothing, or finds the ring open. -/
theorem OutboundRingBuffer.tryPushAvailable_cases (ring : OutboundRingBuffer) (data : Bytes) :
    (ring.tryPushAvailable data).1 = ring ∧
      TryPushAvailable.taken data (ring.tryPushAvailable data).2 = [] ∨
    ring.lifecycle = .opened ∧
      (ring.tryPushAvailable data).1 =
        { ring with chunks := (ring.chunks.pushAvailable data).1 } ∧
      TryPushAvailable.taken data (ring.tryPushAvailable data).2 =
        data.take (ring.chunks.pushAvailable data).2.1 := by
  unfold tryPushAvailable
  cases lifecycle : ring.lifecycle with
  | opened =>
    dsimp only [senderError]
    split
    · refine .inr ⟨rfl, rfl, ?_⟩
      dsimp only
      split
      · rename_i none
        simp [none, TryPushAvailable.taken]
      · rfl
    · exact .inl ⟨rfl, rfl⟩
  | sealing | awaitingComplete | completed | failed _ | closed => exact .inl ⟨rfl, rfl⟩

/-- A turn of `seal` finds the stream past its last chunk, or tries to materialise it. -/
theorem OutboundRingBuffer.sealTurn_cases (ring : OutboundRingBuffer) :
    (∃ result, ring.sealTurn = (ring, .done result) ∧
      (result = .ok () → ring.lifecycle = .awaitingComplete ∨ ring.lifecycle = .completed)) ∨
    (ring.lifecycle = .opened ∨ ring.lifecycle = .sealing) ∧
      ((∃ chunks, ring.chunks.finalize = (chunks, .waitForCapacity) ∧
          ring.sealTurn = (⟨.sealing, chunks⟩, .waitForCapacity)) ∨
        ∃ chunks notify, ring.chunks.finalize = (chunks, .finalized notify) ∧
          ring.sealTurn = (⟨.awaitingComplete, chunks⟩, .done (.ok ()))) := by
  have turn (early : ring.lifecycle = .opened ∨ ring.lifecycle = .sealing) :
      (∃ chunks, ring.chunks.finalize = (chunks, .waitForCapacity) ∧
          ring.sealTurn = (⟨.sealing, chunks⟩, .waitForCapacity)) ∨
        ∃ chunks notify, ring.chunks.finalize = (chunks, .finalized notify) ∧
          ring.sealTurn = (⟨.awaitingComplete, chunks⟩, .done (.ok ())) := by
    rcases finalized : ring.chunks.finalize with ⟨chunks, _ | notify⟩
    · refine .inl ⟨chunks, rfl, ?_⟩
      rcases early with early | early <;> simp [sealTurn, early, finalized,
        sealError, finalChunkMaterialized,
        markSealed]
    · refine .inr ⟨chunks, notify, rfl, ?_⟩
      rcases early with early | early <;> simp [sealTurn, early, finalized,
        sealError, finalChunkMaterialized,
        markSealed, markFinalChunkSent]
  unfold sealTurn at *
  cases lifecycle : ring.lifecycle with
  | opened => exact .inr ⟨.inl rfl, lifecycle ▸ turn (.inl lifecycle)⟩
  | sealing => exact .inr ⟨.inr rfl, lifecycle ▸ turn (.inr lifecycle)⟩
  | awaitingComplete => exact .inl ⟨.ok (), rfl, fun _ => .inl rfl⟩
  | completed => exact .inl ⟨.ok (), rfl, fun _ => .inr rfl⟩
  | failed error => exact .inl ⟨.error error, rfl, nofun⟩
  | closed => exact .inl ⟨.error _, rfl, nofun⟩

namespace OutboundHistory

/-- The assembly of the ring, its lifecycle and its leases agree with the chunks `created`. -/
structure Sound (history : OutboundHistory) (created : List Chunk) : Prop where
  assembled : history.ring.chunks.Assembled created history.accepted
  staged : history.ring.chunks.Unsealed created ∨ history.ring.chunks.Sealed created
  unsealed : history.ring.lifecycle = .opened ∨ history.ring.lifecycle = .sealing →
    history.ring.chunks.Unsealed created
  sealed : history.ring.lifecycle = .awaitingComplete → history.ring.chunks.Sealed created
  leased : ∀ lease ∈ history.leases, lease.toChunk ∈ created

theorem Sound.start (size : RingSize) : (new size).Sound [] :=
  ⟨.start size, .inl (.start size), fun _ => .start size, nofun, nofun⟩

section Steps

variable {history next : OutboundHistory} {created : List Chunk}

theorem Sound.handled (sound : history.Sound created) (accepted : next.accepted = history.accepted)
    (leases : next.leases = history.leases)
    (handled : history.ring.chunks.Handled next.ring.chunks)
    (kept : next.ring.lifecycle = history.ring.lifecycle ∨ next.ring.lifecycle.Ended) :
    next.Sound created := by
  refine ⟨accepted ▸ sound.assembled.handled handled,
    sound.staged.imp (·.handled handled) (·.handled handled), ?_, ?_, leases ▸ sound.leased⟩
  · intro early
    rcases kept with same | ended
    · exact (sound.unsealed (same ▸ early)).handled handled
    · rcases early with early | early <;>
        exact absurd ended (by simp [early, OutboundLifecycle.Ended])
  · intro awaiting
    rcases kept with same | ended
    · exact (sound.sealed (same ▸ awaiting)).handled handled
    · exact absurd ended (by simp [awaiting, OutboundLifecycle.Ended])

theorem Sound.leased_append (sound : history.Sound created) (new : List Chunk) :
    ∀ lease ∈ history.leases, lease.toChunk ∈ created ++ new :=
  fun lease listed => List.mem_append_left new (sound.leased lease listed)

/-- What an operation adds to the chunks created: pushing and sealing enqueue them, the others add
none. -/
def Adds (history : OutboundHistory) (op : RingOp) (new : List Chunk) : Prop :=
  match op with
  | .push _ | .sealTurn => history.ring.chunks.Enqueued new (history.apply op).ring.chunks
  | _ => new = []

variable (sound : history.Sound created)

include sound

theorem Sound.push (data : Bytes) :
    ∃ new, history.Adds (.push data) new ∧
      (history.apply (.push data)).Sound (created ++ new) := by
  rcases history.ring.tryPushAvailable_cases data with ⟨ring, taken⟩ | ⟨opened, ring, taken⟩
  · refine ⟨[], .none ?_ ?_ ?_, ?_⟩
    all_goals simp only [OutboundHistory.apply, ring, taken, List.append_nil]
    exact sound
  · obtain ⟨new, enqueued, assembled, unsealed⟩ :=
      sound.assembled.pushAvailable (sound.unsealed (.inl opened)) data
    refine ⟨new, ?_, ?_⟩
    · simpa only [Adds, OutboundHistory.apply, ring] using enqueued
    simp only [OutboundHistory.apply, ring, taken]
    exact ⟨assembled, .inl unsealed, fun _ => unsealed, by simp [opened], sound.leased_append new⟩

theorem Sound.sealTurn :
    ∃ new, history.Adds .sealTurn new ∧ (history.apply .sealTurn).Sound (created ++ new) := by
  rcases history.ring.sealTurn_cases with ⟨_, turn, _⟩ | ⟨early, turns⟩
  · simp only [Adds, OutboundHistory.apply, turn]
    exact ⟨[], .refl _, by simpa using sound⟩
  · have unsealed := sound.unsealed early
    rcases sound.assembled.finalize unsealed with waits |
      ⟨chunks, new, done, enqueued, assembled, sealed⟩
    · rcases turns with ⟨chunks, finalized, turn⟩ | ⟨chunks, notify, finalized, _⟩
      · obtain rfl : history.ring.chunks = chunks := congrArg Prod.fst (waits.symm.trans finalized)
        simp only [Adds, OutboundHistory.apply, turn]
        refine ⟨[], .refl _, ?_⟩
        rw [List.append_nil]
        exact ⟨sound.assembled, .inl unsealed, fun _ => unsealed, nofun, sound.leased⟩
      · cases waits.symm.trans finalized
    · rcases turns with ⟨other, finalized, _⟩ | ⟨other, notify, finalized, turn⟩
      · cases done.symm.trans finalized
      · obtain rfl : chunks = other := congrArg Prod.fst (done.symm.trans finalized)
        simp only [Adds, OutboundHistory.apply, turn]
        exact ⟨new, enqueued, assembled, .inr sealed, nofun, fun _ => sealed,
          sound.leased_append new⟩

theorem Sound.lease (callisId : CallisId) (peerMsgId : PeerMessageId) :
    (history.apply (.lease callisId peerMsgId)).Sound created := by
  simp only [apply]
  split
  · exact sound
  · rename_i lease ring leased
    unfold OutboundRingBuffer.leaseNextChunkForWrite at leased
    split at leased
    · obtain ⟨⟨_, chunks⟩, given, result⟩ := Option.map_eq_some_iff.mp leased
      cases result
      have handled := OutboundChunks.leaseNextChunkForWrite_handled given
      obtain ⟨_, slot, found, holds, _⟩ :=
        OutboundChunks.leaseNextChunkForWrite_eq_some given
      have kept : { history with ring := { history.ring with chunks := chunks } }.Sound created :=
        sound.handled rfl rfl handled (.inl rfl)
      refine ⟨kept.assembled, kept.staged, kept.unsealed, kept.sealed, ?_⟩
      intro lease listed
      rcases List.mem_append.mp listed with old | new
      · exact sound.leased lease old
      · obtain rfl := List.mem_singleton.mp new
        exact sound.assembled.held slot (List.mem_of_getElem? found) _ holds
    · cases leased

theorem Sound.apply (op : RingOp) :
    ∃ new, history.Adds op new ∧ (history.apply op).Sound (created ++ new) := by
  have same (none : history.Adds op []) (kept : (history.apply op).Sound created) :
      ∃ new, history.Adds op new ∧ (history.apply op).Sound (created ++ new) :=
    ⟨[], none, by simpa using kept⟩
  have refl := OutboundChunks.Handled.refl history.ring.chunks
  cases op with
  | push data => exact sound.push data
  | sealTurn => exact sound.sealTurn
  | lease callisId peerMsgId => exact same rfl (sound.lease callisId peerMsgId)
  | markInflight lease =>
    exact same rfl
      (sound.handled rfl rfl (history.ring.chunks.markInflight_handled lease) (.inl rfl))
  | loseCallis callisId =>
    exact same rfl (sound.handled rfl rfl
      (history.ring.chunks.markCallisReplayReady_handled callisId) (.inl rfl))
  | ack peerMsgId =>
    exact same rfl (sound.handled rfl rfl
      (history.ring.chunks.noteCompletion_handled peerMsgId .ack) (.inl rfl))
  | error peerMsgId error =>
    exact same rfl (sound.handled rfl rfl
      (history.ring.chunks.noteCompletion_handled peerMsgId .error) (.inr trivial))
  | complete =>
    exact same rfl (sound.handled rfl rfl refl (.inr history.ring.lifecycle.markComplete_ended))
  | fail error =>
    exact same rfl
      (sound.handled rfl rfl refl (.inr (history.ring.lifecycle.markFailed_ended error)))
  | close =>
    exact same rfl (sound.handled rfl rfl refl (.inr history.ring.lifecycle.markClosed_ended))

end Steps

end OutboundHistory

end AureliaPeering.Ring
