import AureliaPeering.Callis.Reader
import AureliaPeering.Lib.Oneshot
import AureliaPeering.Net.InboundSteps
import AureliaPeering.Session.OneEpoch

/-!
What a receive loop shares with the other tasks of its peer.

The waiters of a loop are its own; the dedupe state, the tables of the blob manager and the sending
halves of the channels are not.  Every channel is listed with the id it was opened for.  The list
of completions is for the account: every `dedupe_complete` of any task, with its result.
-/

namespace AureliaPeering.Callis

open Collections Session Blob List
open Oneshot (Channel Grows Phase TryRecv phaseAt)

structure Shared where
  dedupe : DedupeState
  duplicates : List (PeerMessageId × Channel DedupeDecision)
  accepts : List (PeerMessageId × Channel (Except AureliaError Unit))
  blob : BlobManager
  completions : List (PeerMessageId × Except AureliaError Unit)

/-- What another task does under one lock. -/
inductive Action where
  | begin (peerMsgId : PeerMessageId)
  | complete (peerMsgId : PeerMessageId) (result : Except AureliaError Unit) (sendQueueSize : Nat)
  | abandon (peerMsgId : PeerMessageId)
  /-- A new session of the peer. -/
  | clear
  /-- A request is handed to a taberna, -/
  | hand (peerMsgId : PeerMessageId)
  /-- which decides about it, -/
  | decide (acceptRx : AcceptReceiver) (result : Except AureliaError Unit)
  /-- or drops it undecided. -/
  | drop (acceptRx : AcceptReceiver)
  /-- The tables of the blob manager, as other tasks leave them. -/
  | blob (blob : BlobManager)

namespace Shared

def resolve (shared : Shared) (resolved : List Resolution) : Shared :=
  { shared with
    duplicates := shared.duplicates.mapIdx fun index channel =>
      match Net.Inbound.resolution resolved index with
      | some decision => (channel.1, channel.2.send decision)
      | none => channel }

def complete (shared : Shared) (sendQueueSize : Nat) (peerMsgId : PeerMessageId)
    (result : Except AureliaError Unit) : Shared :=
  let (resolved, dedupe) := shared.dedupe.dedupeComplete sendQueueSize peerMsgId result
  { shared with
    dedupe := dedupe
    completions := shared.completions ++ [(peerMsgId, result)] }.resolve resolved

def abandon (shared : Shared) (peerMsgId : PeerMessageId) : Shared :=
  let (resolved, dedupe) := shared.dedupe.dedupeAbandon peerMsgId
  { shared with dedupe := dedupe }.resolve resolved

def begin (shared : Shared) (peerMsgId : PeerMessageId) : Shared :=
  match shared.dedupe.dedupeBegin peerMsgId shared.duplicates.length with
  | (.pendingDuplicate _, dedupe) =>
    { shared with dedupe, duplicates := shared.duplicates ++ [(peerMsgId, .empty)] }
  | (.new, dedupe) | (.duplicate _, dedupe) => { shared with dedupe }

/-- The senders of the pending entries are dropped with them. -/
def clear (shared : Shared) : Shared :=
  { shared with
    dedupe := shared.dedupe.clear
    duplicates := shared.duplicates.mapIdx fun index channel =>
      if shared.dedupe.pending.values.any fun senders => index ∈ senders then
        (channel.1, channel.2.close)
      else channel }

def onAccept (shared : Shared) (acceptRx : AcceptReceiver)
    (change : Channel (Except AureliaError Unit) → Channel (Except AureliaError Unit)) : Shared :=
  { shared with
    accepts := shared.accepts.mapIdx fun index entry =>
      if index = acceptRx then (entry.1, change entry.2) else entry }

def act (shared : Shared) : Action → Shared
  | .begin peerMsgId => shared.begin peerMsgId
  | .complete peerMsgId result sendQueueSize => shared.complete sendQueueSize peerMsgId result
  | .abandon peerMsgId => shared.abandon peerMsgId
  | .clear => shared.clear
  | .hand peerMsgId => { shared with accepts := shared.accepts ++ [(peerMsgId, .empty)] }
  | .decide acceptRx result => shared.onAccept acceptRx fun channel => channel.send result
  | .drop acceptRx => shared.onAccept acceptRx Channel.close
  | .blob blob => { shared with blob }

/-- A decision on an id comes from a completion of the id, if it is an answer. -/
def Warranted (shared : Shared) (peerMsgId : PeerMessageId) (decision : DedupeDecision) : Prop :=
  decision = .abandoned ∨
    ∃ result, decision = DedupeState.decisionOf result ∧ (peerMsgId, result) ∈ shared.completions

/-- A sender that waits with the pending entry of an id is that of an open channel for the id, and
what was sent on a channel was warranted. -/
structure Sound (shared : Shared) : Prop where
  waiting : ∀ peerMsgId, ∀ sender ∈ shared.dedupe.waiters peerMsgId,
    shared.duplicates[sender]? = some (peerMsgId, .empty)
  warranted : ∀ (sender : DecisionSender) peerMsgId decision,
    shared.duplicates[sender]? = some (peerMsgId, .sent decision) →
    shared.Warranted peerMsgId decision

def new (sendQueueSize : Nat) : Shared := ⟨.new, [], [], .new sendQueueSize, []⟩

theorem new_sound (sendQueueSize : Nat) : (new sendQueueSize).Sound := by
  constructor
  · intro peerMsgId sender waits
    simp [new, DedupeState.waiters] at waits
  · intro sender peerMsgId decision sent
    simp [new] at sent

inductive Receiver where
  | accept (acceptRx : AcceptReceiver)
  | decision (decisionRx : DecisionSender)

def phase (shared : Shared) : Receiver → Option (PeerMessageId × Phase)
  | .accept acceptRx => phaseAt shared.accepts acceptRx
  | .decision decisionRx => phaseAt shared.duplicates decisionRx

/-- The dedupe state after any calls of its four operations, of which these were completions. -/
inductive Evolves (start : DedupeState) :
    List (PeerMessageId × Except AureliaError Unit) → DedupeState → Prop where
  | refl : Evolves start [] start
  | begin {log state} (peerMsgId : PeerMessageId) (sender : DecisionSender) :
      Evolves start log state → Evolves start log (state.dedupeBegin peerMsgId sender).2
  | complete {log state} (sendQueueSize : Nat) (peerMsgId : PeerMessageId)
      (result : Except AureliaError Unit) : Evolves start log state →
      Evolves start (log ++ [(peerMsgId, result)])
        (state.dedupeComplete sendQueueSize peerMsgId result).2
  | abandon {log state} (peerMsgId : PeerMessageId) :
      Evolves start log state → Evolves start log (state.dedupeAbandon peerMsgId).2
  | clear {log state} : Evolves start log state → Evolves start log state.clear

theorem Evolves.trans {first second third : DedupeState}
    {log rest : List (PeerMessageId × Except AureliaError Unit)}
    (before : Evolves first log second) (after : Evolves second rest third) :
    Evolves first (log ++ rest) third := by
  induction after with
  | refl => rwa [append_nil]
  | begin peerMsgId sender _ ih => exact .begin peerMsgId sender ih
  | complete sendQueueSize peerMsgId result _ ih =>
    rw [← append_assoc]
    exact .complete sendQueueSize peerMsgId result ih
  | abandon peerMsgId _ ih => exact .abandon peerMsgId ih
  | clear _ ih => exact .clear ih

/-- The account goes on, and says which completions the dedupe state has had. -/
def Accounts (shared next : Shared) : Prop :=
  ∃ log, next.completions = shared.completions ++ log ∧ Evolves shared.dedupe log next.dedupe

theorem Accounts.of_eq {shared next : Shared} (completions : next.completions = shared.completions)
    (evolves : Evolves shared.dedupe [] next.dedupe) : shared.Accounts next :=
  ⟨[], by rw [completions, append_nil], evolves⟩

/-- What other tasks leave of the channels and of the account. -/
structure Follows (shared next : Shared) : Prop where
  phase : ∀ receiver, Grows (shared.phase receiver) (next.phase receiver)
  accounts : shared.Accounts next
  sound : shared.Sound → next.Sound

theorem Follows.completions {shared next : Shared} (follows : shared.Follows next) :
    ∀ entry ∈ shared.completions, entry ∈ next.completions := by
  obtain ⟨log, same, _⟩ := follows.accounts
  intro entry listed
  exact same ▸ mem_append_left log listed

theorem Follows.refl (shared : Shared) : shared.Follows shared :=
  ⟨fun _ => .refl _, .of_eq rfl .refl, id⟩

theorem Follows.trans {first second third : Shared} (before : first.Follows second)
    (after : second.Follows third) : first.Follows third where
  phase receiver := (before.phase receiver).trans (after.phase receiver)
  accounts := by
    obtain ⟨log, same, evolves⟩ := before.accounts
    obtain ⟨rest, again, later⟩ := after.accounts
    exact ⟨log ++ rest, by rw [again, same, append_assoc], evolves.trans later⟩
  sound holds := after.sound (before.sound holds)

theorem Warranted.mono {shared next : Shared} {peerMsgId : PeerMessageId}
    {decision : DedupeDecision} (warranted : shared.Warranted peerMsgId decision)
    (completions : ∀ entry ∈ shared.completions, entry ∈ next.completions) :
    next.Warranted peerMsgId decision := by
  rcases warranted with abandoned | ⟨result, same, listed⟩
  · exact .inl abandoned
  · exact .inr ⟨result, same, completions _ listed⟩

section Resolutions

variable {shared : Shared} {dedupe : DedupeState} {peerMsgId : PeerMessageId}
  {decision : DedupeDecision} {completions : List (PeerMessageId × Except AureliaError Unit)}

theorem resolve_duplicates (senders : List DecisionSender) (decision : DedupeDecision) :
    (shared.resolve (senders.map fun waiter => (waiter, decision))).duplicates =
      shared.duplicates.mapIdx fun sender entry =>
        if sender ∈ senders then (entry.1, entry.2.send decision) else entry := by
  rw [resolve]
  refine congrArg (shared.duplicates.mapIdx ·) ?_
  funext sender entry
  rw [Net.Inbound.resolution_map]
  by_cases listed : sender ∈ senders
  · simp only [if_pos listed]
  · simp only [if_neg listed]

theorem resolve_follows (lookup : ∀ other, dedupe.pending.lookup other =
      if other = peerMsgId then none else shared.dedupe.pending.lookup other)
    (accounts : shared.Accounts { shared with dedupe, completions })
    (warranted : decision = .abandoned ∨ ∃ result, decision = DedupeState.decisionOf result ∧
      (peerMsgId, result) ∈ completions) :
    shared.Follows ({ shared with dedupe := dedupe, completions := completions }.resolve
      ((shared.dedupe.waiters peerMsgId).map fun waiter => (waiter, decision))) := by
  refine ⟨fun receiver => ?_, accounts, fun sound => ⟨fun other sender waits => ?_,
    fun sender id sent found => ?_⟩⟩
  · cases receiver with
    | accept => exact .refl _
    | decision decisionRx =>
      rw [phase, phase, resolve_duplicates]
      refine Grows.mapIdx _ (fun sender entry => ?_) decisionRx
      split
      · exact .send _ _ _
      · exact .refl _
  · have waits : sender ∈ (dedupe.pending.lookup other).getD [] := waits
    rw [lookup] at waits
    split at waits
    · cases waits
    · rename_i apart
      have channel := sound.waiting other sender waits
      have elsewhere : sender ∉ shared.dedupe.waiters peerMsgId := by
        intro also
        have same := (sound.waiting peerMsgId sender also).symm.trans channel
        exact apart (Prod.mk.inj (Option.some.inj same)).1.symm
      rw [resolve_duplicates, getElem?_mapIdx, channel, Option.map_some, if_neg elsewhere]
  · rw [resolve_duplicates, getElem?_mapIdx] at found
    obtain ⟨⟨opened, channel⟩, before, after⟩ := Option.map_eq_some_iff.mp found
    split at after
    · rename_i waits
      have channel_eq := (sound.waiting peerMsgId sender waits).symm.trans before
      cases channel_eq
      obtain ⟨rfl, same⟩ := Prod.mk.inj after
      obtain rfl := Channel.sent.inj same
      exact warranted
    · obtain ⟨rfl, rfl⟩ := Prod.mk.inj after
      obtain ⟨log, same, _⟩ := accounts
      exact (sound.warranted sender opened sent before).mono fun _ listed =>
        same ▸ mem_append_left log listed

end Resolutions

theorem complete_follows (shared : Shared) (sendQueueSize : Nat) (peerMsgId : PeerMessageId)
    (result : Except AureliaError Unit) :
    shared.Follows (shared.complete sendQueueSize peerMsgId result) := by
  apply resolve_follows
  · intro other
    exact shared.dedupe.dedupeComplete_lookup sendQueueSize peerMsgId other result
  · exact ⟨[(peerMsgId, result)], rfl, .complete _ _ _ .refl⟩
  · exact .inr ⟨result, rfl, mem_append_right _ (mem_singleton_self _)⟩

theorem abandon_follows (shared : Shared) (peerMsgId : PeerMessageId) :
    shared.Follows (shared.abandon peerMsgId) := by
  apply resolve_follows
  · intro other
    exact shared.dedupe.removePending_lookup peerMsgId other
  · exact .of_eq rfl (.abandon _ .refl)
  · exact .inl rfl

theorem follows_of_accepts (shared : Shared) {accepts : List _} (blob : BlobManager)
    (grows : ∀ index, Grows (phaseAt shared.accepts index) (phaseAt accepts index)) :
    shared.Follows { shared with accepts, blob } := by
  refine ⟨fun receiver => ?_, .of_eq rfl .refl, fun sound => ⟨sound.waiting, sound.warranted⟩⟩
  cases receiver with
  | accept acceptRx => exact grows acceptRx
  | decision => exact .refl _

theorem begin_follows (shared : Shared) (peerMsgId : PeerMessageId) :
    shared.Follows (shared.begin peerMsgId) := by
  have waiters_eq := fun other =>
    shared.dedupe.dedupeBegin_waiters peerMsgId other shared.duplicates.length
  have evolves : Evolves shared.dedupe [] _ := .begin peerMsgId shared.duplicates.length .refl
  rcases shared.dedupe.dedupeBegin_cases peerMsgId shared.duplicates.length with
    ⟨_, taken⟩ | ⟨_, _, _, taken⟩ | ⟨_, _, taken⟩ <;>
  simp only [taken, and_true, reduceCtorEq, and_false, if_false, append_nil]
    at waiters_eq evolves <;>
  rw [begin, taken]
  · exact .refl shared
  · -- The new channel is opened for the id of the entry that its sender joins.
    refine ⟨fun receiver => ?_, .of_eq rfl evolves, fun sound =>
      ⟨fun other sender waits => ?_, fun sender id decision found => ?_⟩⟩
    · cases receiver with
      | accept => exact .refl _
      | decision => exact .append _ _ _
    · rw [waiters_eq] at waits
      rcases mem_append.mp waits with old | fresh
      · have opened := sound.waiting other sender old
        rwa [List.getElem?_append_left (List.getElem?_eq_some_iff.mp opened).1]
      · split at fresh
        · rename_i same
          rw [mem_singleton.mp fresh, same, getElem?_concat_length]
        · cases fresh
    · rcases Nat.lt_or_ge sender shared.duplicates.length with old | fresh
      · rw [getElem?_append_left old] at found
        exact sound.warranted sender id decision found
      · rw [getElem?_append_right fresh] at found
        cases position : sender - shared.duplicates.length with
        | zero | succ => simp [position] at found
  · refine ⟨fun receiver => ?_, .of_eq rfl evolves, fun sound =>
      ⟨fun other sender waits => ?_, sound.warranted⟩⟩
    · cases receiver <;> exact .refl _
    · rw [waiters_eq] at waits
      exact sound.waiting other sender waits

theorem clear_follows (shared : Shared) : shared.Follows shared.clear := by
  refine ⟨fun receiver => ?_, .of_eq rfl (.clear .refl), fun sound =>
    ⟨fun other sender waits => ?_, fun sender id decision found => ?_⟩⟩
  · cases receiver with
    | accept => exact .refl _
    | decision decisionRx =>
      refine Grows.mapIdx _ (fun sender entry => ?_) decisionRx
      split
      · exact .close _ _
      · exact .refl _
  · simp [clear, DedupeState.clear, DedupeState.waiters] at waits
  · rw [clear, getElem?_mapIdx] at found
    obtain ⟨⟨opened, channel⟩, before, after⟩ := Option.map_eq_some_iff.mp found
    split at after
    · obtain ⟨rfl, same⟩ := Prod.mk.inj after
      cases channel with
      | sent earlier =>
        obtain rfl := Channel.sent.inj same
        exact sound.warranted sender opened earlier before
      | _ => cases same
    · obtain ⟨rfl, rfl⟩ := Prod.mk.inj after
      exact sound.warranted sender opened decision before

theorem onAccept_follows (shared : Shared) (acceptRx : AcceptReceiver)
    {change : Channel (Except AureliaError Unit) → Channel (Except AureliaError Unit)}
    (grows : ∀ (id : PeerMessageId) channel,
      Grows (some (id, channel.phase)) (some (id, (change channel).phase))) :
    shared.Follows (shared.onAccept acceptRx change) := by
  refine shared.follows_of_accepts _ (Grows.mapIdx _ fun index entry => ?_)
  split
  · exact grows _ _
  · exact .refl _

theorem act_follows (shared : Shared) (action : Action) : shared.Follows (shared.act action) := by
  cases action with
  | begin peerMsgId => exact shared.begin_follows peerMsgId
  | complete peerMsgId result sendQueueSize =>
    exact shared.complete_follows sendQueueSize peerMsgId result
  | abandon peerMsgId => exact shared.abandon_follows peerMsgId
  | clear => exact shared.clear_follows
  | hand peerMsgId => exact shared.follows_of_accepts _ (.append _ _)
  | decide acceptRx result =>
    exact shared.onAccept_follows acceptRx fun id channel => .send id channel result
  | drop acceptRx => exact shared.onAccept_follows acceptRx .close
  | blob blob => exact shared.follows_of_accepts blob fun _ => .refl _

/-- What the other tasks do while a loop is suspended. -/
theorem foldl_act_follows (shared : Shared) (actions : List Action) :
    shared.Follows (actions.foldl act shared) := by
  induction actions generalizing shared with
  | nil => exact .refl shared
  | cons action rest ih =>
    exact (shared.act_follows action).trans (ih (shared.act action))

end Shared

end AureliaPeering.Callis
