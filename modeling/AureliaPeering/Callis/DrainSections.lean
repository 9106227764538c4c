import AureliaPeering.Callis.DrainPass
import AureliaPeering.Callis.Waiters

/-!
The sections of a receive loop, one after the other, are a drain.

The model of the sections lets other tasks act between any two of them, the model of a drain at its
awaits.  Where they do nothing, the two make the same of every waiter.
-/

namespace AureliaPeering.Callis

open Collections Session Blob AureliaPeering.Ring List Option
open Net (AcceptDecision InboundOutcome)
open DrainPass (push)

namespace Reception

/-- The loop and the drain agree; the outcomes `earlier` came before the drain. -/
@[mk_iff]
structure Meets (state : Reception) (reader : Reader) (earlier : List InboundOutcome)
    (pass : DrainPass) : Prop where
  dedupe : state.dedupe = pass.shared.dedupe
  blob : state.blob = pass.shared.blob
  outcomes : state.outcomes = earlier ++ pass.outcomes.map Prod.snd
  waiters : reader.waiters = pass.waiters

/-- The work of the loop on its request ends, the hand free, where the drain is. -/
def Ends (state : Reception) (callis : CallisId) (input : HandInput)
    (earlier : List InboundOutcome) (pass : DrainPass) : Prop :=
  ∃ count next reader, Machine.exec step state (replicate count (.hand callis input)) = some next ∧
    next.readers.lookup callis = some reader ∧ reader.hand = none ∧ next.Meets reader earlier pass

/-- No other task acts. -/
def alone : Nat → List Action := fun _ => []

/-- What the loop reads from the channel of a waiter. -/
def readyKind (state : Reception) : InboundWaiter → Option ReadyKind
  | .message _ acceptRx => (state.decisionOn acceptRx).map .message
  | .blobAccept pending => (state.decisionOn pending.acceptRx).map .blob
  | .duplicate decisionRx => (state.duplicates[decisionRx]?).join.map .duplicate
  | .blobCallis _ _ => none

section Alone

variable {state : Reception} {callis : CallisId} {earlier : List InboundOutcome} {hand : Hand}
  {pass : DrainPass} {input : HandInput} {reader : Reader} {id : PeerMessageId}
  {pending : BlobAcceptPending} {deadline : Instant} {result : Except AureliaError Unit}

theorem Ends.work (isHand : reader.hand = some hand)
    (ends : ((state.setReader callis reader).handStep callis reader hand input).Ends callis input
      earlier pass) :
    (state.setReader callis reader).Ends callis input earlier pass := by
  obtain ⟨count, ends⟩ := ends
  exact ⟨count + 1, by simpa [replicate_succ, Machine.exec, step, setReader, isHand] using ends⟩

-- From here on both models are executed by `simp`; what is left are the cases of the tables.
attribute [local simp] Machine.exec step handStep setReader setBlob setHand insertWaiter
  requests streams alone push DrainPass.pause DrainPass.onBlob Shared.onBlob DrainPass.reply
  DrainPass.dedupeComplete Shared.complete Reception.reply Reception.dedupeComplete
  DrainPass.activate DrainPass.activatePendingRequest resolve Shared.resolve pushOutcome
  DrainPass.insertWaiter DrainPass.removeWaiter meets_iff

theorem Meets.drops (meets : state.Meets reader earlier pass) :
    (state.dropRequest callis reader id pending (.reply result)).Ends callis input earlier
      (push id ((pass.dropPendingRequest alone id).reply alone id result input.sendQueueSize)) := by
  obtain ⟨dedupe, blob, outcomes, waiters⟩ := meets
  cases listed : (pass.shared.blob.inbound.pendingRequests.lookup id).isSome with
  | true => exact ⟨2, by simp [dropRequest, DrainPass.dropPendingRequest, *]⟩
  | false => exact ⟨1, by simp [dropRequest, DrainPass.dropPendingRequest, *]⟩

theorem Meets.activates (meets : state.Meets reader earlier pass) :
    (state.activate callis reader hand input.settings).Ends callis input earlier
      (push hand.peerMsgId (pass.activate alone hand.peerMsgId input)) := by
  obtain ⟨dedupe, blob, outcomes, waiters⟩ := meets
  cases known : input.settings with
  | none => exact ⟨1, by simp [Reception.activate, *]⟩
  | some settings =>
    cases listed : (pass.shared.blob.inbound.recvStreams.lookup hand.peerMsgId).isSome with
    | true => exact ⟨1, by simp [Reception.activate, *]⟩
    | false =>
      cases requested : pass.shared.blob.inbound.pendingRequests.lookup hand.peerMsgId with
      | none => exact ⟨2, by simp [Reception.activate, *]⟩
      | some request =>
        cases sized : RingSize.new settings.chunkSize settings.ackWindowChunks with
        | error error => exact ⟨3, by simp [Reception.activate, *]⟩
        | ok size => exact ⟨3, by simp [Reception.activate, *]⟩

/-- A request that waits for a blob callis is looked at. -/
theorem Meets.drain_blobCallis (meets : state.Meets reader earlier pass)
    (idle : state.idleReader callis = some reader)
    (found : pass.waiters.lookup id = some (.blobCallis pending deadline)) :
    ∃ next, state.step (.drain callis id input.sendQueueSize) = some next ∧
      next.Ends callis input earlier (pass.drainBlobCallisEntry alone (fun _ => input) id) := by
  obtain ⟨dedupe, blob, outcomes, waiters⟩ := meets
  simp only [step, idle, drain, DrainPass.drainBlobCallisEntry, waiters, found, bind_some,
    some.injEq, exists_eq_left']
  refine .work rfl ?_
  simp only [handStep, DrainPass.drainBlobCallisWaiter]
  split
  · exact Meets.drops ⟨dedupe, blob, outcomes, rfl⟩
  split
  · exact Meets.activates ⟨dedupe, blob, outcomes, rfl⟩
  · exact ⟨0, by simp [*]⟩

/-- A waiter whose decision is there is drained. -/
theorem Meets.drain_ready {waiter : InboundWaiter} {kind : ReadyKind}
    (meets : state.Meets reader earlier pass) (idle : state.idleReader callis = some reader)
    (found : pass.waiters.lookup id = some waiter) (ready : state.readyKind waiter = some kind) :
    ∃ next, state.step (.drain callis id input.sendQueueSize) = some next ∧
      next.Ends callis input earlier (pass.drainEntry alone (fun _ => input) (id, kind)) := by
  obtain ⟨dedupe, blob, outcomes, waiters⟩ := meets
  obtain ⟨_, _, free⟩ := idleReader_eq_some idle
  simp only [step, idle, drain, DrainPass.drainEntry, waiters, found, bind_some]
  cases waiter with
  | message _ acceptRx =>
    obtain ⟨decision, decided, rfl⟩ := map_eq_some_iff.mp ready
    simp only [decided, map_some, some.injEq, exists_eq_left', DrainPass.drainWaiter]
    exact ⟨0, by simp [DrainPass.drainMessageWaiter, *]⟩
  | blobAccept pending =>
    obtain ⟨decision, decided, rfl⟩ := map_eq_some_iff.mp ready
    simp only [decided, map_some, some.injEq, exists_eq_left', DrainPass.drainWaiter,
      DrainPass.drainBlobAcceptWaiter]
    split
    · refine .work rfl ?_
      have added request := congrArg (BlobManager.addPendingRequest · id request) blob
      simp only [handStep]
      split
      · exact Meets.drops ⟨dedupe, added _, outcomes, rfl⟩
      split
      · exact Meets.activates ⟨dedupe, added _, outcomes, rfl⟩
      cases input.signalled with
      | error error => exact ⟨1, by simp [*]⟩
      | ok => exact ⟨0, by simp [*]⟩
    · exact ⟨2, by simp [*]⟩
  | duplicate decisionRx =>
    obtain ⟨decision, decided, rfl⟩ := map_eq_some_iff.mp ready
    simp only [decided, some.injEq, exists_eq_left', DrainPass.drainWaiter]
    exact ⟨0, by simp [*]⟩
  | blobCallis => cases ready

end Alone

end Reception

end AureliaPeering.Callis
