import AureliaPeering.Callis.DrainPass

/-!
What one drain makes of every waiter.

The status of an id is its waiter, the outcomes it produced and the completions the loop made for
it.  Work on one id leaves the status of every other id alone, so that the status of an id after
the drain is what the work on this id made of it, whatever was drained before and after.
-/

namespace AureliaPeering.Callis

open Collections Session Blob AureliaPeering.Ring List Option
open Net (AcceptDecision InboundOutcome answerOf drainDuplicateWaiter)
open Oneshot (Channel Grows Phase TryRecv phaseAt)
open Peer (BlobCallisSettings)

namespace DrainPass

section Statuses

variable (pass : DrainPass) (peerMsgId : PeerMessageId)

def outcomesOf : List InboundOutcome :=
  (pass.outcomes.filter fun entry => entry.1 = peerMsgId).map Prod.snd

def completedOf : List (Except AureliaError Unit) :=
  (pass.completed.filter fun entry => entry.1 = peerMsgId).map Prod.snd

structure Status where
  waiter : Option InboundWaiter
  outcomes : List InboundOutcome
  completed : List (Except AureliaError Unit)

def status : Status :=
  ⟨pass.waiters.lookup peerMsgId, pass.outcomesOf peerMsgId, pass.completedOf peerMsgId⟩

/-- The waiter has left the map with one outcome, that of the one completion the loop made. -/
def Answered : Prop :=
  ∃ result, pass.status peerMsgId = ⟨none, [answerOf peerMsgId result], [result]⟩ ∧
    (peerMsgId, result) ∈ pass.shared.completions

/-- The duplicate has left the map with one outcome, that of the decision on its original. -/
def Forwarded : Prop :=
  ∃ decision, pass.status peerMsgId = ⟨none, [drainDuplicateWaiter peerMsgId decision], []⟩ ∧
    pass.shared.Warranted peerMsgId decision

def AwaitsCallis : Prop :=
  ∃ pending deadline, pass.status peerMsgId = ⟨some (.blobCallis pending deadline), [], []⟩

def Untouched (waiter : InboundWaiter) : Prop :=
  pass.status peerMsgId = ⟨some waiter, [], []⟩

/-- What a drain makes of a decided waiter, or of one that waits for a blob callis. -/
def Settled : InboundWaiter → Prop
  | .message _ _ => pass.Answered peerMsgId
  | .blobAccept _ => pass.Answered peerMsgId ∨ pass.AwaitsCallis peerMsgId
  | .duplicate _ => pass.Forwarded peerMsgId
  | .blobCallis pending deadline =>
    pass.Answered peerMsgId ∨ pass.Untouched peerMsgId (.blobCallis pending deadline)

end Statuses

section Frames

variable {pass next last : DrainPass} {peerMsgId other : PeerMessageId}

/-- The dedupe state has had the completions that the account lists, and those of the loop are
among them. -/
def Accounts (pass next : DrainPass) : Prop :=
  ∃ log own, next.shared.completions = pass.shared.completions ++ log ∧
    next.completed = pass.completed ++ own ∧ own.Sublist log ∧
    Shared.Evolves pass.shared.dedupe log next.shared.dedupe

/-- The status of every id but one stays, and the other tasks do what they do. -/
structure Apart (pass next : DrainPass) (peerMsgId : PeerMessageId) : Prop where
  status : ∀ other, other ≠ peerMsgId → next.status other = pass.status other
  follows : pass.shared.Follows next.shared
  accounts : pass.Accounts next

structure Kept (pass next : DrainPass) : Prop where
  waiters : next.waiters = pass.waiters
  outcomes : next.outcomes = pass.outcomes
  completed : next.completed = pass.completed

structure Quiet (pass next : DrainPass) : Prop extends Kept pass next where
  follows : pass.shared.Follows next.shared

theorem Accounts.of_shared (same : next.completed = pass.completed)
    (accounts : pass.shared.Accounts next.shared) : pass.Accounts next := by
  obtain ⟨log, completions, evolves⟩ := accounts
  exact ⟨log, [], completions, by rw [same, append_nil], nil_sublist log, evolves⟩

theorem Accounts.refl (pass : DrainPass) : pass.Accounts pass :=
  .of_shared rfl (.of_eq rfl .refl)

theorem Accounts.trans (before : pass.Accounts next) (after : next.Accounts last) :
    pass.Accounts last := by
  obtain ⟨log, own, completions, completed, listed, evolves⟩ := before
  obtain ⟨rest, more, again, made, among, later⟩ := after
  exact ⟨log ++ rest, own ++ more, by rw [again, completions, append_assoc],
    by rw [made, completed, append_assoc], listed.append among, evolves.trans later⟩

theorem Accounts.completions (accounts : pass.Accounts next) :
    ∀ entry ∈ pass.shared.completions, entry ∈ next.shared.completions := by
  obtain ⟨log, _, same, _⟩ := accounts
  exact fun entry listed => same ▸ mem_append_left log listed

theorem Kept.trans (before : pass.Kept next) (after : next.Kept last) : pass.Kept last where
  waiters := after.waiters.trans before.waiters
  outcomes := after.outcomes.trans before.outcomes
  completed := after.completed.trans before.completed

theorem Kept.status (kept : pass.Kept next) (other : PeerMessageId) :
    next.status other = pass.status other := by
  rw [DrainPass.status, DrainPass.status, outcomesOf, outcomesOf, completedOf, completedOf,
    kept.waiters, kept.outcomes, kept.completed]

theorem Quiet.refl (pass : DrainPass) : pass.Quiet pass := ⟨⟨rfl, rfl, rfl⟩, .refl pass.shared⟩

theorem Quiet.trans (before : pass.Quiet next) (after : next.Quiet last) : pass.Quiet last :=
  ⟨before.toKept.trans after.toKept, before.follows.trans after.follows⟩

theorem Quiet.accounts (quiet : pass.Quiet next) : pass.Accounts next :=
  .of_shared quiet.completed quiet.follows.accounts

theorem Apart.refl (pass : DrainPass) (peerMsgId : PeerMessageId) : pass.Apart pass peerMsgId :=
  ⟨fun _ _ => rfl, .refl pass.shared, .refl pass⟩

theorem Apart.trans (before : pass.Apart next peerMsgId) (after : next.Apart last peerMsgId) :
    pass.Apart last peerMsgId where
  status other apart := (after.status other apart).trans (before.status other apart)
  follows := before.follows.trans after.follows
  accounts := before.accounts.trans after.accounts

theorem Quiet.apart (quiet : pass.Quiet next) (peerMsgId : PeerMessageId) :
    pass.Apart next peerMsgId :=
  ⟨fun other _ => quiet.status other, quiet.follows, quiet.accounts⟩

theorem push_none (peerMsgId : PeerMessageId) (pass : DrainPass) :
    push peerMsgId (none, pass) = pass := by
  simp [push]

variable (tasks : Nat → List Action)

theorem pause_quiet (pass : DrainPass) : pass.Quiet (pass.pause tasks) :=
  ⟨⟨rfl, rfl, rfl⟩, pass.shared.foldl_act_follows (tasks pass.awaits)⟩

/-- The loop changes the tables of the blob manager, and nothing else. -/
theorem onBlob_quiet (pass : DrainPass) (change : BlobManager → BlobManager) :
    pass.Quiet (pass.onBlob change) :=
  ⟨⟨rfl, rfl, rfl⟩, pass.shared.act_follows (.blob (change pass.shared.blob))⟩

theorem dropPendingRequest_quiet (pass : DrainPass) (streamId : PeerMessageId) :
    pass.Quiet (pass.dropPendingRequest tasks streamId) := by
  unfold dropPendingRequest
  have removed := (pass.pause_quiet tasks).trans
    ((pass.pause tasks).onBlob_quiet (BlobManager.removePendingRequest · streamId))
  dsimp only
  split
  · exact (removed.trans (pause_quiet tasks _)).trans (onBlob_quiet _ _)
  · exact removed

theorem activatePendingRequest_quiet (pass : DrainPass) (streamId : PeerMessageId)
    (settings : BlobCallisSettings) (deadline : Instant) :
    pass.Quiet (pass.activatePendingRequest tasks streamId settings deadline).2 := by
  unfold activatePendingRequest
  have looked := pass.pause_quiet tasks
  dsimp only
  split
  · exact looked
  · have again := looked.trans (pause_quiet tasks _)
    split
    · exact again
    · have taken := again.trans (onBlob_quiet _ (BlobManager.removePendingRequest · streamId))
      split
      · exact taken
      · exact (taken.trans (pause_quiet tasks _)).trans (onBlob_quiet _ _)

/-- What the work on a waiter that has left the map amounts to: after a quiet stretch it is
answered, or a waiter takes its place. -/
inductive Drained (pass : DrainPass) (peerMsgId : PeerMessageId) (Left : InboundWaiter → Prop) :
    DrainPass → Prop where
  | replies {middle : DrainPass} (quiet : pass.Quiet middle) (result : Except AureliaError Unit)
      (sendQueueSize : Nat) :
      Drained pass peerMsgId Left
        (push peerMsgId (middle.reply tasks peerMsgId result sendQueueSize))
  | waits {middle : DrainPass} (quiet : pass.Quiet middle) {waiter : InboundWaiter}
      (left : Left waiter) : Drained pass peerMsgId Left (middle.insertWaiter peerMsgId waiter)

variable {tasks} {Left : InboundWaiter → Prop}

theorem Drained.of_quiet (quiet : pass.Quiet next)
    (after : next.Drained tasks peerMsgId Left last) : pass.Drained tasks peerMsgId Left last := by
  cases after with
  | replies later result sendQueueSize => exact .replies (quiet.trans later) result sendQueueSize
  | waits later left => exact .waits (quiet.trans later) left

theorem activate_drained (pass : DrainPass) (peerMsgId : PeerMessageId) (input : HandInput) :
    pass.Drained tasks peerMsgId Left (push peerMsgId (pass.activate tasks peerMsgId input)) := by
  unfold activate
  cases input.settings with
  | none => exact .replies (.refl pass) _ _
  | some settings => exact .replies (activatePendingRequest_quiet ..) _ _

theorem drainBlobAcceptWaiter_drained (pass : DrainPass) (peerMsgId : PeerMessageId)
    (pending : BlobAcceptPending) (input : HandInput) (ready : AcceptDecision) :
    pass.Drained tasks peerMsgId (fun waiter => ∃ pending deadline, waiter = .blobCallis pending
      deadline) (push peerMsgId
        (pass.drainBlobAcceptWaiter tasks peerMsgId pending input ready)) := by
  unfold drainBlobAcceptWaiter
  split
  · apply Drained.of_quiet ((pass.pause_quiet tasks).trans (onBlob_quiet _ _))
    split
    · exact .replies (dropPendingRequest_quiet ..) _ _
    · split
      · exact activate_drained _ peerMsgId input
      · cases input.signalled with
        | error error => exact .replies (.refl _) _ _
        | ok =>
          rw [push_none]
          exact .waits (.refl _) ⟨_, _, rfl⟩
  · exact .replies ((pass.pause_quiet tasks).trans (onBlob_quiet _ _)) _ _

/-- A request that waits for a blob callis is answered, or goes on waiting as it did. -/
theorem drainBlobCallisWaiter_drained (pass : DrainPass) (peerMsgId : PeerMessageId)
    (pending : BlobAcceptPending) (deadline : Instant) (input : HandInput) :
    pass.Drained tasks peerMsgId (· = .blobCallis pending deadline)
      (pass.drainBlobCallisWaiter tasks peerMsgId pending deadline input) := by
  unfold drainBlobCallisWaiter
  split
  · exact .replies (dropPendingRequest_quiet ..) _ _
  · apply Drained.of_quiet (pass.pause_quiet tasks)
    dsimp only
    split
    · exact activate_drained _ peerMsgId input
    · exact .waits (.refl _) rfl

end Frames

section Status

variable {pass next : DrainPass} {peerMsgId : PeerMessageId} (tasks : Nat → List Action)

theorem filter_append_tag {Value : Type} (entries : List (PeerMessageId × Value))
    (value : Value) (peerMsgId other : PeerMessageId) :
    ((entries ++ [(peerMsgId, value)]).filter fun entry => entry.1 = other).map Prod.snd =
      (entries.filter fun entry => entry.1 = other).map Prod.snd ++
        if peerMsgId = other then [value] else [] := by
  rw [filter_append, map_append]
  by_cases same : peerMsgId = other
  · simp [same]
  · simp [same]

theorem removeWaiter_apart (pass : DrainPass) (peerMsgId : PeerMessageId) :
    pass.Apart (pass.removeWaiter peerMsgId) peerMsgId := by
  refine ⟨fun other apart => ?_, .refl pass.shared, .refl pass⟩
  simp only [status, removeWaiter, HashMap.lookup_erase_eq, if_neg apart]
  rfl

theorem status_removeWaiter_self {waiter : Option InboundWaiter}
    (before : pass.status peerMsgId = ⟨waiter, [], []⟩) :
    (pass.removeWaiter peerMsgId).status peerMsgId = ⟨none, [], []⟩ := by
  obtain ⟨_, outcomes, completed⟩ := Status.mk.inj before
  simp only [status, removeWaiter, HashMap.lookup_erase_eq, if_pos]
  exact congrArg₂ (Status.mk none) outcomes completed

theorem insertWaiter_apart (pass : DrainPass) (peerMsgId : PeerMessageId)
    (waiter : InboundWaiter) : pass.Apart (pass.insertWaiter peerMsgId waiter) peerMsgId := by
  refine ⟨fun other apart => ?_, .refl pass.shared, .refl pass⟩
  simp only [status, insertWaiter, HashMap.lookup_insert_eq, if_neg apart]
  rfl

theorem status_insertWaiter_self {held : Option InboundWaiter} (waiter : InboundWaiter)
    (before : pass.status peerMsgId = ⟨held, [], []⟩) :
    (pass.insertWaiter peerMsgId waiter).status peerMsgId = ⟨some waiter, [], []⟩ := by
  obtain ⟨_, outcomes, completed⟩ := Status.mk.inj before
  simp only [status, insertWaiter, HashMap.lookup_insert_eq, if_pos]
  exact congrArg₂ (Status.mk (some waiter)) outcomes completed

theorem push_apart (peerMsgId : PeerMessageId) (outcome : Option InboundOutcome)
    (pass : DrainPass) : pass.Apart (push peerMsgId (outcome, pass)) peerMsgId := by
  refine ⟨fun other apart => ?_, .refl pass.shared, .refl pass⟩
  cases outcome with
  | none => simp [status, push, outcomesOf, completedOf]
  | some outcome =>
    simp only [status, push, outcomesOf, completedOf, map_some, toList_some,
      filter_append_tag, if_neg (Ne.symm apart), append_nil]

theorem reply_apart (pass : DrainPass) (peerMsgId : PeerMessageId)
    (result : Except AureliaError Unit) (sendQueueSize : Nat) :
    pass.Apart (push peerMsgId (pass.reply tasks peerMsgId result sendQueueSize)) peerMsgId where
  status other apart := by
    simp only [status, push, reply, dedupeComplete, pause, outcomesOf, completedOf, map_some,
      toList_some, filter_append_tag, if_neg (Ne.symm apart), append_nil]
  follows := (pass.pause_quiet tasks).follows.trans (Shared.complete_follows _ _ _ _)
  accounts := (pass.pause_quiet tasks).accounts.trans
    ⟨[_], [_], rfl, rfl, .refl _, .complete sendQueueSize _ _ .refl⟩

theorem reply_answered (before : pass.status peerMsgId = ⟨none, [], []⟩)
    (result : Except AureliaError Unit) (sendQueueSize : Nat) :
    (push peerMsgId (pass.reply tasks peerMsgId result sendQueueSize)).Answered peerMsgId := by
  obtain ⟨waiter, outcomes, completed⟩ := Status.mk.inj before
  rw [outcomesOf] at outcomes
  rw [completedOf] at completed
  refine ⟨result, ?_, mem_append_right _ (mem_singleton_self _)⟩
  simp only [status, push, reply, dedupeComplete, pause, outcomesOf, completedOf, map_some,
    toList_some, filter_append_tag, if_pos, waiter, outcomes, completed, nil_append]

variable {tasks} {Left : InboundWaiter → Prop}

theorem Drained.apart (work : pass.Drained tasks peerMsgId Left next) :
    pass.Apart next peerMsgId := by
  cases work with
  | replies quiet => exact (quiet.apart peerMsgId).trans (reply_apart ..)
  | waits quiet => exact (quiet.apart peerMsgId).trans (insertWaiter_apart _ _ _)

theorem Drained.settles (work : pass.Drained tasks peerMsgId Left next)
    (before : pass.status peerMsgId = ⟨none, [], []⟩) :
    next.Answered peerMsgId ∨ ∃ waiter, Left waiter ∧ next.Untouched peerMsgId waiter := by
  cases work with
  | replies quiet => exact .inl (reply_answered tasks ((quiet.status peerMsgId).trans before) _ _)
  | waits quiet left =>
    exact .inr ⟨_, left, status_insertWaiter_self _ ((quiet.status peerMsgId).trans before)⟩

/-- What is settled for an id stays settled while the loop works on other ids. -/
theorem Settled.congr {waiter : InboundWaiter} (settled : pass.Settled peerMsgId waiter)
    (status_eq : next.status peerMsgId = pass.status peerMsgId)
    (follows : pass.shared.Follows next.shared) : next.Settled peerMsgId waiter := by
  have answered : pass.Answered peerMsgId → next.Answered peerMsgId := by
    rintro ⟨result, same, listed⟩
    exact ⟨result, status_eq.trans same, follows.completions _ listed⟩
  cases waiter with
  | message => exact answered settled
  | blobAccept pending =>
    apply settled.imp answered
    rintro ⟨held, deadline, same⟩
    exact ⟨held, deadline, status_eq.trans same⟩
  | blobCallis pending deadline => exact settled.imp answered status_eq.trans
  | duplicate decisionRx =>
    obtain ⟨decision, same, warranted⟩ := settled
    exact ⟨decision, status_eq.trans same, warranted.mono follows.completions⟩

end Status

end DrainPass

def ReadyKind.Fits : ReadyKind → InboundWaiter → Prop
  | .message _, .message _ _ => True
  | .blob _, .blobAccept _ => True
  | .duplicate _, .duplicate _ => True
  | _, _ => False

namespace DrainPass

section Application

variable {pass : DrainPass} {peerMsgId : PeerMessageId} (tasks : Nat → List Action)

theorem drainWaiter_apart (pass : DrainPass) (peerMsgId : PeerMessageId) (input : HandInput)
    (waiter : InboundWaiter) (kind : ReadyKind) :
    pass.Apart (pass.drainWaiter tasks peerMsgId input waiter kind) peerMsgId := by
  unfold drainWaiter
  split
  · exact pass.reply_apart tasks peerMsgId _ input.sendQueueSize
  · exact (pass.drainBlobAcceptWaiter_drained peerMsgId _ input _).apart
  · exact push_apart peerMsgId _ pass
  · exact insertWaiter_apart pass peerMsgId waiter

theorem drainWaiter_settles {waiter : InboundWaiter} {kind : ReadyKind} (input : HandInput)
    (fits : kind.Fits waiter) (before : pass.status peerMsgId = ⟨none, [], []⟩)
    (warranted : ∀ decision, kind = .duplicate decision →
      pass.shared.Warranted peerMsgId decision) :
    (pass.drainWaiter tasks peerMsgId input waiter kind).Settled peerMsgId waiter := by
  cases kind with
  | message ready =>
    cases waiter with
    | message =>
      exact reply_answered tasks before _ input.sendQueueSize
    | _ => cases fits
  | blob ready =>
    cases waiter with
    | blobAccept pending =>
      refine ((pass.drainBlobAcceptWaiter_drained peerMsgId pending input ready).settles
        before).imp_right ?_
      rintro ⟨_, ⟨held, deadline, rfl⟩, same⟩
      exact ⟨held, deadline, same⟩
    | _ => cases fits
  | duplicate decision =>
    cases waiter with
    | duplicate =>
      refine ⟨decision, ?_, warranted decision rfl⟩
      obtain ⟨waiter, outcomes, completed⟩ := Status.mk.inj before
      rw [outcomesOf] at outcomes
      simp only [drainWaiter, status, push, outcomesOf, map_some, toList_some,
        filter_append_tag, if_pos, waiter, outcomes, nil_append]
      exact congrArg (Status.mk none _) completed
    | _ => cases fits

section Loop

variable {Entry : Type} {work : DrainPass → Entry → DrainPass} {tag : Entry → PeerMessageId}
  {entries : List Entry} {entry : Entry}

theorem foldl_apart (each : ∀ pass entry, Apart pass (work pass entry) (tag entry))
    (entries : List Entry) (pass : DrainPass) :
    pass.shared.Follows (entries.foldl work pass).shared ∧
      pass.Accounts (entries.foldl work pass) ∧
      ∀ other, other ∉ entries.map tag →
        (entries.foldl work pass).status other = pass.status other := by
  induction entries generalizing pass with
  | nil => exact ⟨.refl pass.shared, .refl pass, fun _ _ => rfl⟩
  | cons first rest ih =>
    obtain ⟨follows, accounts, status⟩ := ih (work pass first)
    have step := each pass first
    refine ⟨step.follows.trans follows, step.accounts.trans accounts, fun other absent => ?_⟩
    rw [map_cons, mem_cons, not_or] at absent
    exact (status other absent.2).trans (step.status other absent.1)

/-- An id that its own step settles is settled, whatever is done before and after it. -/
theorem foldl_settles (each : ∀ pass entry, Apart pass (work pass entry) (tag entry))
    {waiter : InboundWaiter} (distinct : (entries.map tag).Nodup) (listed : entry ∈ entries)
    (before : pass.Untouched (tag entry) waiter)
    (settles : ∀ middle, pass.shared.Follows middle.shared → middle.Untouched (tag entry) waiter →
      (work middle entry).Settled (tag entry) waiter) :
    (entries.foldl work pass).Settled (tag entry) waiter := by
  induction entries generalizing pass with
  | nil => cases listed
  | cons first rest ih =>
    obtain ⟨absent, distinct⟩ := nodup_cons.mp distinct
    rcases mem_cons.mp listed with rfl | later
    · obtain ⟨follows, _, status⟩ := foldl_apart each rest (work pass entry)
      exact (settles pass (.refl _) before).congr (status _ absent) follows
    · have apart : tag entry ≠ tag first := by
        intro same
        exact absent (same ▸ mem_map_of_mem later)
      have step := each pass first
      apply ih distinct later ((step.status _ apart).trans before)
      intro middle follows
      exact settles middle (step.follows.trans follows)

end Loop

variable (inputs : PeerMessageId → HandInput)

theorem drainEntry_apart (pass : DrainPass) (entry : PeerMessageId × ReadyKind) :
    pass.Apart (pass.drainEntry tasks inputs entry) entry.1 := by
  unfold drainEntry
  split
  · exact .refl pass entry.1
  · exact (removeWaiter_apart pass entry.1).trans
      (drainWaiter_apart tasks _ entry.1 (inputs entry.1) _ entry.2)

theorem drainEntry_settles {kind : ReadyKind} {waiter : InboundWaiter} (fits : kind.Fits waiter)
    (before : pass.Untouched peerMsgId waiter)
    (warranted : ∀ decision, kind = .duplicate decision →
      pass.shared.Warranted peerMsgId decision) :
    (pass.drainEntry tasks inputs (peerMsgId, kind)).Settled peerMsgId waiter := by
  have found : pass.waiters.lookup peerMsgId = some waiter := (Status.mk.inj before).1
  simp only [drainEntry, found]
  exact drainWaiter_settles tasks (inputs peerMsgId) fits (status_removeWaiter_self before)
    warranted

theorem drainBlobCallisEntry_apart (pass : DrainPass) (peerMsgId : PeerMessageId) :
    pass.Apart (pass.drainBlobCallisEntry tasks inputs peerMsgId) peerMsgId := by
  unfold drainBlobCallisEntry
  split
  · exact (removeWaiter_apart pass peerMsgId).trans
      (drainBlobCallisWaiter_drained _ peerMsgId _ _ _).apart
  · exact removeWaiter_apart pass peerMsgId

theorem drainBlobCallisEntry_settles {pending : BlobAcceptPending} {deadline : Instant}
    (before : pass.Untouched peerMsgId (.blobCallis pending deadline)) :
    (pass.drainBlobCallisEntry tasks inputs peerMsgId).Settled peerMsgId
      (.blobCallis pending deadline) := by
  have found : pass.waiters.lookup peerMsgId = some (.blobCallis pending deadline) :=
    (Status.mk.inj before).1
  simp only [drainBlobCallisEntry, found]
  refine ((drainBlobCallisWaiter_drained _ peerMsgId pending deadline (inputs peerMsgId)).settles
    (status_removeWaiter_self before)).imp_right ?_
  rintro ⟨_, rfl, same⟩
  exact same

end Application

end DrainPass

/-- The receiver a waiter receives its decision with, if it has yet to. -/
def InboundWaiter.receiver : InboundWaiter → Option Shared.Receiver
  | .message _ acceptRx => some (.accept acceptRx)
  | .blobAccept pending => some (.accept pending.acceptRx)
  | .duplicate decisionRx => some (.decision decisionRx)
  | .blobCallis _ _ => none

/-- The receiver of the waiter is that of a channel opened for its id, and has not received. -/
def InboundWaiter.Holds (shared : Shared) (peerMsgId : PeerMessageId) (waiter : InboundWaiter) :
    Prop :=
  ∀ receiver, waiter.receiver = some receiver →
    ∃ phase, shared.phase receiver = some (peerMsgId, phase) ∧ phase ≠ .received

/-- The channel of the waiter has its decision, or will never have one. -/
def InboundWaiter.Decided (shared : Shared) (peerMsgId : PeerMessageId) (waiter : InboundWaiter) :
    Prop :=
  ∃ receiver, waiter.receiver = some receiver ∧ shared.phase receiver = some (peerMsgId, .decided)

namespace Shared

variable {shared middle next : Shared} {peerMsgId : PeerMessageId} {waiter : InboundWaiter}

/-- The channels opened for an id change at most as their senders can change them. -/
def Grown (shared next : Shared) (peerMsgId : PeerMessageId) : Prop :=
  ∀ receiver phase, shared.phase receiver = some (peerMsgId, phase) →
    Grows (shared.phase receiver) (next.phase receiver)

theorem Follows.grown (follows : shared.Follows next) (peerMsgId : PeerMessageId) :
    shared.Grown next peerMsgId :=
  fun receiver _ _ => follows.phase receiver

theorem Grown.trans (before : shared.Grown middle peerMsgId) (after : middle.Grown next peerMsgId) :
    shared.Grown next peerMsgId := by
  intro receiver phase known
  have grows := before receiver phase known
  rcases grows with absent | same | ⟨_, empty, decided⟩
  · exact .inl absent
  · exact same ▸ after receiver phase (same.trans known)
  · cases known.symm.trans empty
    exact (Grows.trans (.inr (.inr ⟨_, empty, decided⟩)) (after receiver _ decided))

theorem Grown.holds (grown : shared.Grown next peerMsgId) (holds : waiter.Holds shared peerMsgId) :
    waiter.Holds next peerMsgId := by
  intro receiver isReceiver
  obtain ⟨phase, known, unread⟩ := holds receiver isReceiver
  exact (grown receiver phase known).unread known unread

theorem Grown.decided (grown : shared.Grown next peerMsgId)
    (decided : waiter.Decided shared peerMsgId) : waiter.Decided next peerMsgId := by
  obtain ⟨receiver, isReceiver, known⟩ := decided
  exact ⟨receiver, isReceiver, (grown receiver _ known).decided known⟩

/-- A receipt concerns one channel, and leaves an empty one as it is. -/
structure Receives (shared next : Shared) (receiver : Receiver) : Prop where
  others : ∀ other, other ≠ receiver → next.phase other = shared.phase other
  empty : ∀ tag, shared.phase receiver = some (tag, .empty) → next = shared
  completions : next.completions = shared.completions
  dedupe : next.dedupe = shared.dedupe
  sound : shared.Sound → next.Sound

theorem receiveAccept_receives {acceptRx : AcceptReceiver}
    {channel : Channel (Except AureliaError Unit)}
    (found : shared.accepts[acceptRx]? = some (peerMsgId, channel)) :
    (shared.receiveAccept acceptRx).1 = channel.tryRecv.1 ∧
      shared.Receives (shared.receiveAccept acceptRx).2 (.accept acceptRx) := by
  simp only [receiveAccept, found]
  refine ⟨trivial, fun other apart => ?_, fun tag empty => ?_, rfl, rfl,
    fun sound => ⟨sound.waiting, sound.warranted⟩⟩
  · cases other with
    | accept other => exact Oneshot.phaseAt_receive_of_ne _ (by simpa using apart)
    | decision => rfl
  · obtain ⟨_, isEmpty⟩ := Prod.mk.inj (some.inj ((Oneshot.phaseAt_eq found).symm.trans empty))
    rw [Oneshot.set_receive_of_empty found isEmpty]

theorem receiveDecision_receives {decisionRx : DecisionSender} {channel : Channel DedupeDecision}
    (found : shared.duplicates[decisionRx]? = some (peerMsgId, channel)) :
    (shared.receiveDecision decisionRx).1 = channel.tryRecv.1 ∧
      shared.Receives (shared.receiveDecision decisionRx).2 (.decision decisionRx) := by
  simp only [receiveDecision, found]
  refine ⟨trivial, fun other apart => ?_, fun tag empty => ?_, rfl, rfl, fun sound =>
    ⟨fun other sender waits => ?_, fun sender other decision sent => ?_⟩⟩
  · cases other with
    | accept => rfl
    | decision other => exact Oneshot.phaseAt_receive_of_ne _ (by simpa using apart)
  · obtain ⟨_, isEmpty⟩ := Prod.mk.inj (some.inj ((Oneshot.phaseAt_eq found).symm.trans empty))
    rw [Oneshot.set_receive_of_empty found isEmpty]
  · have opened := sound.waiting other sender waits
    by_cases same : decisionRx = sender
    · -- A sender still waits, so the channel is empty and was left so.
      subst same
      cases found.symm.trans opened
      rwa [Oneshot.set_receive_of_empty found rfl]
    · rwa [getElem?_set_ne same]
  · rcases Slots.of_getElem?_set sent with ⟨_, isNew⟩ | ⟨_, sent⟩
    · obtain ⟨_, same⟩ := Prod.mk.inj isNew
      cases channel <;> cases same
    · exact sound.warranted sender other decision sent

end Shared

namespace DrainPass

variable (tasks : Nat → List Action)

structure Collected (pass next : DrainPass) (peerMsgId : PeerMessageId) (waiter : InboundWaiter)
    (kind : Option ReadyKind) : Prop extends Kept pass next where
  accounts : pass.Accounts next
  sound : pass.shared.Sound → next.shared.Sound
  others : ∀ other, other ≠ peerMsgId → pass.shared.Grown next.shared other
  itself : kind = none → pass.shared.Grown next.shared peerMsgId
  decided : waiter.Decided pass.shared peerMsgId → kind ≠ none
  fits : ∀ ready, kind = some ready → ready.Fits waiter
  warranted : ∀ decision, kind = some (.duplicate decision) → pass.shared.Sound →
    next.shared.Warranted peerMsgId decision

variable {pass : DrainPass} {peerMsgId : PeerMessageId} {waiter : InboundWaiter}
  {kind : Option ReadyKind}

theorem collected_of_receipt {receiver : Shared.Receiver} {phase : Phase} {shared : Shared}
    (isReceiver : waiter.receiver = some receiver)
    (known : (pass.pause tasks).shared.phase receiver = some (peerMsgId, phase))
    (receives : (pass.pause tasks).shared.Receives shared receiver)
    (empty : kind = none ↔ phase = .empty) (fits : ∀ ready, kind = some ready → ready.Fits waiter)
    (warranted : ∀ decision, kind = some (.duplicate decision) → (pass.pause tasks).shared.Sound →
      (pass.pause tasks).shared.Warranted peerMsgId decision) :
    pass.Collected { pass.pause tasks with shared } peerMsgId waiter kind := by
  have follows := (pass.pause_quiet tasks).follows
  refine ⟨⟨rfl, rfl, rfl⟩, ?_, fun sound => receives.sound (follows.sound sound), ?_, ?_, ?_, fits,
    ?_⟩
  · refine .of_shared rfl ?_
    unfold Shared.Accounts
    rw [receives.completions, receives.dedupe]
    exact follows.accounts
  · intro other apart
    refine (follows.grown other).trans fun another phase opened => ?_
    rw [receives.others another]
    · exact .refl _
    · rintro rfl
      exact apart (Prod.mk.inj (some.inj (opened.symm.trans known))).1
  · intro nothing
    obtain rfl := empty.mp nothing
    rw [receives.empty _ known]
    exact follows.grown peerMsgId
  · rintro ⟨other, isOther, isDecided⟩ nothing
    cases isReceiver.symm.trans isOther
    obtain rfl := empty.mp nothing
    cases known.symm.trans ((follows.phase receiver).decided isDecided)
  · intro decision same sound
    apply (warranted decision same (follows.sound sound)).mono
    rw [receives.completions]
    exact fun _ listed => listed

theorem acceptReady_eq_none (channel : Channel (Except AureliaError Unit)) :
    acceptReady channel.tryRecv.1 = none ↔ channel.phase = .empty := by
  cases channel with
  | sent result => cases result <;> simp [Channel.tryRecv, acceptReady, Channel.phase]
  | _ => simp [Channel.tryRecv, acceptReady, Channel.phase]

theorem collected_of_accept {acceptRx : AcceptReceiver} (make : AcceptDecision → ReadyKind)
    (isReceiver : waiter.receiver = some (.accept acceptRx))
    (holds : waiter.Holds pass.shared peerMsgId) (fits : ∀ ready, (make ready).Fits waiter)
    (plain : ∀ ready decision, make ready ≠ .duplicate decision) :
    pass.Collected
      { pass.pause tasks with
        shared := ((pass.pause tasks).shared.receiveAccept acceptRx).2 } peerMsgId waiter
      ((acceptReady ((pass.pause tasks).shared.receiveAccept acceptRx).1).map make) := by
  obtain ⟨_, known, _⟩ :=
    ((pass.pause_quiet tasks).follows.grown peerMsgId).holds holds _ isReceiver
  obtain ⟨channel, found, rfl⟩ := Oneshot.exists_of_phaseAt known
  obtain ⟨received, receives⟩ := Shared.receiveAccept_receives found
  refine collected_of_receipt tasks isReceiver known receives ?_ ?_ ?_
  · rw [received, map_eq_none_iff]
    exact acceptReady_eq_none channel
  · intro kind same
    obtain ⟨ready, _, rfl⟩ := map_eq_some_iff.mp same
    exact fits ready
  · intro decision same
    obtain ⟨ready, _, made⟩ := map_eq_some_iff.mp same
    exact absurd made (plain ready decision)

theorem collect_collected (holds : waiter.Holds pass.shared peerMsgId) :
    pass.Collected (pass.collect tasks waiter).2 peerMsgId waiter
      (pass.collect tasks waiter).1 := by
  cases waiter with
  | message dstTaberna acceptRx =>
    exact collected_of_accept tasks .message rfl holds (fun _ => trivial) (by simp)
  | blobAccept pending =>
    exact collected_of_accept tasks .blob rfl holds (fun _ => trivial) (by simp)
  | duplicate decisionRx =>
    obtain ⟨_, known, _⟩ :=
      ((pass.pause_quiet tasks).follows.grown peerMsgId).holds holds _ rfl
    obtain ⟨channel, found, rfl⟩ := Oneshot.exists_of_phaseAt known
    obtain ⟨received, receives⟩ := Shared.receiveDecision_receives found
    simp only [collect, received]
    refine collected_of_receipt tasks rfl known receives ?_ ?_ ?_
    · cases channel <;> simp [Channel.tryRecv, Channel.phase]
    · intro kind same
      cases channel <;> cases same <;> trivial
    · intro decision same sound
      cases channel with
      | sent => cases same; exact sound.warranted decisionRx peerMsgId _ found
      | empty => cases same
      | closed => cases same; exact .inl rfl
      | received => cases same; exact .inl rfl
  | blobCallis pending deadline =>
    have follows := (pass.pause_quiet tasks).follows
    refine ⟨⟨rfl, rfl, rfl⟩, .of_shared rfl follows.accounts, follows.sound,
      fun other _ => follows.grown other, fun _ => follows.grown peerMsgId, ?_, ?_, ?_⟩
    · rintro ⟨_, isReceiver, _⟩
      cases isReceiver
    · intro ready same
      cases same
    · intro decision same
      cases same

structure Gathered (pass next : DrainPass) (order : List PeerMessageId)
    (ready : List (PeerMessageId × ReadyKind)) : Prop extends Kept pass next where
  accounts : pass.Accounts next
  sound : pass.shared.Sound → next.shared.Sound
  sublist : (ready.map Prod.fst).Sublist order
  fits : ∀ entry ∈ ready, ∃ waiter, pass.waiters.lookup entry.1 = some waiter ∧
    entry.2.Fits waiter
  warranted : pass.shared.Sound → ∀ entry ∈ ready, ∀ decision, entry.2 = .duplicate decision →
    next.shared.Warranted entry.1 decision
  decided : ∀ peerMsgId ∈ order, ∀ waiter, pass.waiters.lookup peerMsgId = some waiter →
    waiter.Decided pass.shared peerMsgId → peerMsgId ∈ ready.map Prod.fst
  unread : ∀ peerMsgId, peerMsgId ∉ ready.map Prod.fst →
    pass.shared.Grown next.shared peerMsgId

theorem Gathered.cons {middle last : DrainPass} {rest : List PeerMessageId}
    {ready : List (PeerMessageId × ReadyKind)} (absent : peerMsgId ∉ rest)
    (found : pass.waiters.lookup peerMsgId = some waiter)
    (collected : pass.Collected middle peerMsgId waiter kind)
    (gathered : middle.Gathered last rest ready) :
    pass.Gathered last (peerMsgId :: rest)
      ((kind.map fun kind => (peerMsgId, kind)).toList ++ ready) := by
  have mem_ready : ∀ entry, entry ∈ (kind.map fun kind => (peerMsgId, kind)).toList ++ ready ↔
      (∃ received, kind = some received ∧ entry = (peerMsgId, received)) ∨ entry ∈ ready := by
    intro entry
    rw [mem_append]
    apply or_congr _ Iff.rfl
    cases kind with
    | none => simp
    | some received => simp
  refine ⟨collected.toKept.trans gathered.toKept, ?_, ?_, ?_, ?_, ?_, ?_, ?_⟩
  · exact collected.accounts.trans gathered.accounts
  · exact fun sound => gathered.sound (collected.sound sound)
  · cases kind with
    | none => exact gathered.sublist.cons peerMsgId
    | some received => exact gathered.sublist.cons_cons peerMsgId
  · intro entry listed
    rcases (mem_ready entry).mp listed with ⟨received, same, rfl⟩ | old
    · exact ⟨waiter, found, collected.fits received same⟩
    · rw [← collected.waiters]
      exact gathered.fits entry old
  · intro sound entry listed decision same
    rcases (mem_ready entry).mp listed with ⟨received, isKind, rfl⟩ | old
    · rw [show received = .duplicate decision from same] at isKind
      exact (collected.warranted decision isKind sound).mono gathered.accounts.completions
    · exact gathered.warranted (collected.sound sound) entry old decision same
  · intro other listed held isHeld decided
    rw [List.mem_map]
    rcases mem_cons.mp listed with rfl | later
    · cases found.symm.trans isHeld
      obtain ⟨received, same⟩ := ne_none_iff_exists'.mp (collected.decided decided)
      exact ⟨(other, received), (mem_ready _).mpr (.inl ⟨received, same, rfl⟩), rfl⟩
    · have apart : other ≠ peerMsgId := by
        rintro rfl
        exact absent later
      rw [← collected.waiters] at isHeld
      have inReady := gathered.decided other later held isHeld
        ((collected.others other apart).decided decided)
      obtain ⟨entry, isEntry, same⟩ := mem_map.mp inReady
      exact ⟨entry, (mem_ready entry).mpr (.inr isEntry), same⟩
  · intro other unlisted
    have elsewhere : other ∉ ready.map Prod.fst := by
      intro listed
      obtain ⟨entry, isEntry, same⟩ := mem_map.mp listed
      exact unlisted (mem_map.mpr ⟨entry, (mem_ready entry).mpr (.inr isEntry), same⟩)
    refine Shared.Grown.trans ?_ (gathered.unread other elsewhere)
    by_cases same : other = peerMsgId
    · subst same
      apply collected.itself
      cases kind with
      | none => rfl
      | some received => exact absurd (by simp) unlisted
    · exact collected.others other same

theorem collectReadyWaiters_gathered {order : List PeerMessageId}
    (distinct : order.Nodup)
    (holds : ∀ peerMsgId ∈ order, ∀ waiter, pass.waiters.lookup peerMsgId = some waiter →
      waiter.Holds pass.shared peerMsgId) :
    pass.Gathered (pass.collectReadyWaiters tasks order).2 order
      (pass.collectReadyWaiters tasks order).1 := by
  induction order generalizing pass with
  | nil =>
    refine ⟨⟨rfl, rfl, rfl⟩, .refl pass, id, .slnil, ?_, ?_, ?_, ?_⟩
    · intro entry listed
      cases listed
    · intro _ entry listed
      cases listed
    · intro peerMsgId listed
      cases listed
    · intro peerMsgId _
      exact (Shared.Follows.refl pass.shared).grown peerMsgId
  | cons peerMsgId rest ih =>
    obtain ⟨absent, distinct⟩ := nodup_cons.mp distinct
    unfold collectReadyWaiters
    split
    · rename_i vacant
      have gathered := ih distinct fun other listed =>
        holds other (mem_cons_of_mem _ listed)
      refine { gathered with
        sublist := gathered.sublist.cons peerMsgId
        decided := ?_ }
      intro other listed waiter found decided
      rcases mem_cons.mp listed with rfl | later
      · cases vacant.symm.trans found
      · exact gathered.decided other later waiter found decided
    · rename_i waiter found
      have collected := collect_collected tasks (holds peerMsgId mem_cons_self waiter found)
      apply Gathered.cons absent found collected
      apply ih distinct
      intro other listed held isHeld
      have apart : other ≠ peerMsgId := by
        rintro rfl
        exact absent listed
      rw [collected.waiters] at isHeld
      exact (collected.others other apart).holds
        (holds other (mem_cons_of_mem _ listed) held isHeld)

/-- A traversal of a map meets every key once. -/
def Traverses (order : List PeerMessageId) (waiters : HashMap PeerMessageId InboundWaiter) : Prop :=
  order.Nodup ∧ ∀ peerMsgId, peerMsgId ∈ order ↔ (waiters.lookup peerMsgId).isSome

def Truthful (pass : DrainPass) : InboundOutcome → Prop
  | .ack peerMsgId => (peerMsgId, .ok ()) ∈ pass.shared.completions
  | .error peerMsgId error => (peerMsgId, .error error) ∈ pass.shared.completions
  | .skip => True

section Whole

variable {shared : Shared} {waiters : HashMap PeerMessageId InboundWaiter}
  {order later : List PeerMessageId} {peerMsgId : PeerMessageId}
  (first second : PeerMessageId → HandInput)

def readyIds (order : List PeerMessageId) (pass : DrainPass) : List PeerMessageId :=
  (pass.collectReadyWaiters tasks order).1.map Prod.fst

/-- After the first half: the decided waiters are settled and the others are as they were. -/
theorem drainAcceptWaiters_cases (sound : shared.Sound) (traversed : Traverses order waiters)
    (holds : ∀ peerMsgId waiter, waiters.lookup peerMsgId = some waiter →
      waiter.Holds shared peerMsgId) (peerMsgId : PeerMessageId) :
    (peerMsgId ∈ readyIds tasks order (start shared waiters) ∧
      ∃ waiter, waiters.lookup peerMsgId = some waiter ∧
        (drainAcceptWaiters tasks first order (start shared waiters)).Settled peerMsgId waiter) ∨
    peerMsgId ∉ readyIds tasks order (start shared waiters) ∧
      (drainAcceptWaiters tasks first order (start shared waiters)).status peerMsgId =
        ⟨waiters.lookup peerMsgId, [], []⟩ ∧
      shared.Grown (drainAcceptWaiters tasks first order (start shared waiters)).shared
        peerMsgId := by
  have gathered := @collectReadyWaiters_gathered tasks (start shared waiters) order traversed.1
    fun peerMsgId _ => holds peerMsgId
  by_cases listed : peerMsgId ∈ readyIds tasks order (start shared waiters)
  · refine .inl ⟨listed, ?_⟩
    obtain ⟨_, isReady, rfl⟩ := mem_map.mp listed
    obtain ⟨waiter, found, fits⟩ := gathered.fits _ isReady
    have before := gathered.status
    refine ⟨waiter, found, foldl_settles (drainEntry_apart tasks first)
      (traversed.1.sublist gathered.sublist) isReady ((before _).trans ?_)
      fun middle follows same => ?_⟩
    · exact congrArg (Status.mk · [] []) found
    · apply drainEntry_settles tasks first fits same
      intro decision isDuplicate
      exact (gathered.warranted sound _ isReady decision isDuplicate).mono follows.completions
  · obtain ⟨follows, _, status⟩ := foldl_apart (drainEntry_apart tasks first) _
      ((start shared waiters).collectReadyWaiters tasks order).2
    exact .inr ⟨listed, (status peerMsgId listed).trans (gathered.status peerMsgId),
      (gathered.unread peerMsgId listed).trans (follows.grown peerMsgId)⟩

theorem drainBlobCallisWaiters_follows (pass : DrainPass) :
    pass.shared.Follows (pass.drainBlobCallisWaiters tasks second later).shared :=
  (foldl_apart (drainBlobCallisEntry_apart tasks second) _ pass).1

/-- The second half is about the requests that wait for a blob callis, -/
theorem drainBlobCallisWaiters_apart
    (other : ∀ waiter, pass.waiters.lookup peerMsgId = some waiter → waiter.receiver ≠ none) :
    (pass.drainBlobCallisWaiters tasks second later).status peerMsgId =
      pass.status peerMsgId := by
  refine (foldl_apart (drainBlobCallisEntry_apart tasks second) _ pass).2.2 peerMsgId
    fun listed => ?_
  rw [List.map_id'] at listed
  have tested := (List.mem_filter.mp listed).2
  split at tested
  · rename_i found
    exact other _ found rfl
  · cases tested

/-- and about every one of them. -/
theorem drainBlobCallisWaiters_settles {pending : BlobAcceptPending}
    {deadline : Instant} (traversed : Traverses later pass.waiters)
    (before : pass.Untouched peerMsgId (.blobCallis pending deadline)) :
    (pass.drainBlobCallisWaiters tasks second later).Settled peerMsgId
      (.blobCallis pending deadline) := by
  have found : pass.waiters.lookup peerMsgId = some (.blobCallis pending deadline) :=
    (Status.mk.inj before).1
  refine @foldl_settles pass _ _ id _ peerMsgId (drainBlobCallisEntry_apart tasks second) _ ?_ ?_
    before
    fun middle _ same => drainBlobCallisEntry_settles tasks second same
  · rw [List.map_id]
    exact traversed.1.filter _
  · refine mem_filter.mpr ⟨(traversed.2 peerMsgId).mpr (by rw [found]; rfl), ?_⟩
    rw [found]

variable (settled : pass.Settled peerMsgId waiter)

include settled

/-- However a waiter is settled, it is in one of three ways. -/
theorem Settled.cases :
    pass.Answered peerMsgId ∨ pass.Forwarded peerMsgId ∨ pass.AwaitsCallis peerMsgId := by
  cases waiter with
  | message => exact .inl settled
  | duplicate => exact .inr (.inl settled)
  | blobAccept => exact settled.imp_right .inr
  | blobCallis pending deadline =>
    exact settled.imp_right fun same => .inr ⟨pending, deadline, same⟩

theorem Settled.receiver {held : InboundWaiter}
    (found : pass.waiters.lookup peerMsgId = some held) : held.receiver = none := by
  rcases settled.cases with ⟨_, same, _⟩ | ⟨_, same, _⟩ | ⟨_, _, same⟩ <;>
  rw [(Status.mk.inj same).1] at found <;> cases found
  rfl

theorem Settled.truthful : ∀ outcome ∈ pass.outcomesOf peerMsgId, pass.Truthful outcome := by
  intro outcome produced
  rcases settled.cases with ⟨result, same, listed⟩ | ⟨_, same, warranted⟩ | ⟨_, _, same⟩ <;>
  rw [(Status.mk.inj same).2.1] at produced
  · obtain rfl := mem_singleton.mp produced
    cases result <;> exact listed
  · obtain rfl := mem_singleton.mp produced
    rcases warranted with rfl | ⟨result, rfl, listed⟩
    · trivial
    · cases result <;> exact listed
  · cases produced

theorem Settled.drainBlobCallisWaiters (traversed : Traverses later pass.waiters) :
    (pass.drainBlobCallisWaiters tasks second later).Settled peerMsgId waiter := by
  by_cases waits : pass.AwaitsCallis peerMsgId
  · obtain ⟨pending, deadline, same⟩ := waits
    have still := drainBlobCallisWaiters_settles tasks second traversed same
    cases waiter with
    | message | duplicate =>
      obtain ⟨_, gone, _⟩ := settled
      cases gone.symm.trans same
    | blobAccept => exact still.imp_right fun untouched => ⟨pending, deadline, untouched⟩
    | blobCallis =>
      rcases settled with ⟨_, gone, _⟩ | held
      · cases gone.symm.trans same
      · cases held.symm.trans same
        exact still
  · -- A waiter that has left the map is not looked at again.
    refine settled.congr (drainBlobCallisWaiters_apart tasks second fun held found => ?_)
      (drainBlobCallisWaiters_follows tasks second pass)
    rcases settled.cases with ⟨_, gone, _⟩ | ⟨_, gone, _⟩ | awaits
    · cases (Status.mk.inj gone).1.symm.trans found
    · cases (Status.mk.inj gone).1.symm.trans found
    · exact absurd awaits waits

omit settled

/-- Every id is settled, or it has not been received from and its status is what it was. -/
theorem drainReady_cases (sound : shared.Sound) (traversed : Traverses order waiters)
    (holds : ∀ peerMsgId waiter, waiters.lookup peerMsgId = some waiter →
      waiter.Holds shared peerMsgId)
    (again : Traverses later (drainAcceptWaiters tasks first order (start shared waiters)).waiters)
    (peerMsgId : PeerMessageId) :
    (∃ waiter, waiters.lookup peerMsgId = some waiter ∧
      (peerMsgId ∈ readyIds tasks order (start shared waiters) ∨ waiter.receiver = none) ∧
      (drainReady tasks first second order later (start shared waiters)).Settled peerMsgId
        waiter) ∨
    (peerMsgId ∉ readyIds tasks order (start shared waiters) ∧
      ∀ waiter, waiters.lookup peerMsgId = some waiter → waiter.receiver ≠ none) ∧
      (drainReady tasks first second order later (start shared waiters)).status peerMsgId =
        ⟨waiters.lookup peerMsgId, [], []⟩ ∧
      shared.Grown (drainReady tasks first second order later (start shared waiters)).shared
        peerMsgId := by
  rcases drainAcceptWaiters_cases tasks first sound traversed holds peerMsgId with
    ⟨listed, waiter, found, settled⟩ | ⟨unlisted, status, grown⟩
  · exact .inl ⟨waiter, found, .inl listed, settled.drainBlobCallisWaiters tasks second again⟩
  · by_cases other : ∀ waiter, waiters.lookup peerMsgId = some waiter → waiter.receiver ≠ none
    · refine .inr ⟨⟨unlisted, other⟩, ?_, grown.trans
        ((drainBlobCallisWaiters_follows tasks second _).grown peerMsgId)⟩
      refine (drainBlobCallisWaiters_apart tasks second fun waiter held => ?_).trans status
      exact other waiter ((Status.mk.inj status).1.symm.trans held)
    · push Not at other
      obtain ⟨waiter, found, waits⟩ := other
      refine .inl ⟨waiter, found, .inr waits, ?_⟩
      rw [found] at status
      cases waiter with
      | blobCallis => exact drainBlobCallisWaiters_settles tasks second again status
      | message | blobAccept | duplicate => cases waits

/-- One drain of any map, whatever the other tasks do meanwhile.  Every waiter that was decided is
received from.  A waiter that was received from has left the map with one outcome, or waits for a
blob callis without one; so does a request that waited already.  The others are as they were, and
what is left in the map has not been received from.  Every answer is that of a completion of its
id, with the same result, and the completions are those that the dedupe state has had. -/
theorem drain_exact (sound : shared.Sound)
    (holds : ∀ peerMsgId waiter, waiters.lookup peerMsgId = some waiter →
      waiter.Holds shared peerMsgId)
    (traversed : Traverses order waiters)
    (again : Traverses later
      (drainAcceptWaiters tasks first order (start shared waiters)).waiters) :
    let ready := readyIds tasks order (start shared waiters)
    let final := drainReady tasks first second order later (start shared waiters)
    (∀ peerMsgId waiter, waiters.lookup peerMsgId = some waiter →
      (waiter.Decided shared peerMsgId → peerMsgId ∈ ready) ∧
      (peerMsgId ∈ ready ∨ waiter.receiver = none → final.Settled peerMsgId waiter) ∧
      (peerMsgId ∉ ready → waiter.receiver ≠ none → final.Untouched peerMsgId waiter)) ∧
    (∀ peerMsgId, waiters.lookup peerMsgId = none → final.status peerMsgId = ⟨none, [], []⟩) ∧
    (∀ peerMsgId waiter, final.waiters.lookup peerMsgId = some waiter →
      waiter.Holds final.shared peerMsgId) ∧
    (∀ entry ∈ final.outcomes, final.Truthful entry.2) ∧
    (start shared waiters).Accounts final := by
  intro ready final
  have gathered := @collectReadyWaiters_gathered tasks (start shared waiters) order traversed.1
    fun peerMsgId _ => holds peerMsgId
  have every := drainReady_cases tasks first second sound traversed holds again
  refine ⟨fun peerMsgId waiter found => ⟨?_, ?_, ?_⟩, ?_, ?_, ?_, ?_⟩
  · intro decided
    exact gathered.decided peerMsgId ((traversed.2 peerMsgId).mpr (by rw [found]; rfl)) waiter found
      decided
  · intro reason
    rcases every peerMsgId with ⟨held, isHeld, _, settled⟩ | ⟨⟨unlisted, other⟩, _⟩
    · cases isHeld.symm.trans found
      exact settled
    · exact absurd reason (not_or.mpr ⟨unlisted, other waiter found⟩)
  · intro unlisted other
    rcases every peerMsgId with ⟨held, isHeld, reason, _⟩ | ⟨_, status, _⟩
    · cases isHeld.symm.trans found
      exact absurd reason (not_or.mpr ⟨unlisted, other⟩)
    · exact status.trans (congrArg (Status.mk · [] []) found)
  · intro peerMsgId absent
    rcases every peerMsgId with ⟨held, isHeld, _⟩ | ⟨_, status, _⟩
    · cases absent.symm.trans isHeld
    · exact status.trans (congrArg (Status.mk · [] []) absent)
  · intro peerMsgId waiter left
    rcases every peerMsgId with ⟨_, _, _, settled⟩ | ⟨_, status, grown⟩
    · intro receiver isReceiver
      cases (settled.receiver left).symm.trans isReceiver
    · exact grown.holds (holds peerMsgId waiter ((Status.mk.inj status).1.symm.trans left))
  · intro entry listed
    have produced : entry.2 ∈ final.outcomesOf entry.1 :=
      mem_map.mpr ⟨entry, mem_filter.mpr ⟨listed, by simp⟩, rfl⟩
    rcases every entry.1 with ⟨_, _, _, settled⟩ | ⟨_, status, _⟩
    · exact settled.truthful entry.2 produced
    · rw [(Status.mk.inj status).2.1] at produced
      cases produced
  · exact (gathered.accounts.trans (foldl_apart (drainEntry_apart tasks first) _ _).2.1).trans
      (foldl_apart (drainBlobCallisEntry_apart tasks second) _ _).2.1

end Whole

/-- Id 1 is accepted, id 2 is undecided, and the original of the duplicate of id 3 is completed. -/
def mixedShared : Shared :=
  [.begin 1, .hand 1, .begin 2, .hand 2, .begin 3, .hand 3, .begin 3,
    .decide 0 (.ok ()), .complete 3 (.ok ()) 16].foldl Shared.act (Shared.new 16)

def mixedWaiters : HashMap PeerMessageId InboundWaiter :=
  AList.insert 3 (.duplicate 0) (AList.insert 2 (.message 7 1) (AList.insert 1 (.message 7 0) ∅))

def quietInput : HandInput := ⟨true, false, .ok (), none, 0, 5, 16⟩

theorem traverses_keys (waiters : HashMap PeerMessageId InboundWaiter) :
    Traverses waiters.keys waiters := by
  refine ⟨waiters.keys_nodup, fun peerMsgId => ?_⟩
  rw [AList.lookup_isSome]
  exact AList.mem_keys.symm

theorem mixedWaiters_holds (peerMsgId : PeerMessageId) (waiter : InboundWaiter)
    (found : mixedWaiters.lookup peerMsgId = some waiter) :
    waiter.Holds mixedShared peerMsgId := by
  intro receiver isReceiver
  simp only [mixedWaiters, HashMap.lookup_insert_eq] at found
  split at found
  · rename_i same
    cases found
    cases isReceiver
    exact ⟨.decided, same ▸ rfl, by decide⟩
  · split at found
    · rename_i same
      cases found
      cases isReceiver
      exact ⟨.empty, same ▸ rfl, by decide⟩
    · split at found
      · rename_i same
        cases found
        cases isReceiver
        exact ⟨.decided, same ▸ rfl, by decide⟩
      · cases found

/-- The decision on id 2 is sent once the first half has received. -/
def lateDecision : Nat → List Action
  | 3 => [.decide 1 (.ok ())]
  | _ => []

def mixedDrain : DrainPass :=
  let later := drainAcceptWaiters lateDecision (fun _ => quietInput) mixedWaiters.keys
    (start mixedShared mixedWaiters)
  drainReady lateDecision (fun _ => quietInput) (fun _ => quietInput) mixedWaiters.keys
    later.waiters.keys (start mixedShared mixedWaiters)

/-- Id 1 and the duplicate are answered, and id 2 stays with its decision unread. -/
theorem drain_exact_mixed :
    mixedDrain.Answered 1 ∧ mixedDrain.Untouched 2 (.message 7 1) ∧ mixedDrain.Forwarded 3 ∧
      mixedDrain.status 4 = ⟨none, [], []⟩ ∧
      (InboundWaiter.message 7 1).Holds mixedDrain.shared 2 ∧
      mixedDrain.outcomes = [(3, .ack 3), (1, .ack 1)] ∧
      (∀ entry ∈ mixedDrain.outcomes, mixedDrain.Truthful entry.2) ∧
      mixedDrain.completed = [(1, .ok ())] ∧ mixedDrain.shared.dedupe.set = {1, 3} ∧
      (start mixedShared mixedWaiters).Accounts mixedDrain := by
  obtain ⟨each, absent, left, truthful, accounts⟩ :=
    drain_exact lateDecision (fun _ => quietInput) (fun _ => quietInput)
      ((Shared.new 16).foldl_act_follows _ |>.sound (Shared.new_sound 16)) mixedWaiters_holds
      (traverses_keys mixedWaiters) (traverses_keys _)
  obtain ⟨received, settled, _⟩ := each 1 (.message 7 0) rfl
  obtain ⟨_, _, untouched⟩ := each 2 (.message 7 1) rfl
  obtain ⟨joined, forwarded, _⟩ := each 3 (.duplicate 0) rfl
  exact ⟨settled (.inl (received ⟨_, rfl, rfl⟩)),
    untouched (by decide) (by simp [InboundWaiter.receiver]),
    forwarded (.inl (joined ⟨_, rfl, rfl⟩)), absent 4 rfl, left 2 _ rfl, by decide, truthful, rfl,
    by decide, accounts⟩

end DrainPass

end AureliaPeering.Callis
