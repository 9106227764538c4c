import AureliaPeering.Lib.Machine
import AureliaPeering.Ring.History

/-!
The task that seals an outbound ring, under a clock and beside the tasks that acknowledge its
chunks.

`seal` alternates between an attempt to materialise the last chunk and a wait for capacity.  The
wait arms a notification, checks the ring, and parks until the notification or the deadline.  The
check asks whether bytes can be appended, the attempt whether a chunk can be enqueued: a partly
filled write buffer over an exhausted window passes the first and fails the second.
-/

namespace AureliaPeering.Ring

open OutboundChunks List

/-- The operations that notify the waiters of the ring. -/
def OutboundRingBuffer.notifies (ring : OutboundRingBuffer) : RingOp → Bool
  | .push data => (ring.chunks.pushAvailable data).2.2
  | .sealTurn => ring.chunks.finalize.2 = .finalized true
  | .lease .. | .markInflight _ => false
  | .loseCallis callisId => (ring.chunks.markCallisReplayReady callisId).2
  | .ack peerMsgId => (ring.chunks.noteCompletion peerMsgId .ack).2
  | .error .. | .complete | .fail _ | .close => true

/-- Pushing and sealing are left to the one sender of the stream. -/
def RingOp.isForeign : RingOp → Bool
  | .push _ | .sealTurn => false
  | _ => true

/-- Where `seal` is suspended.  A wait records its deadline and whether it was notified. -/
inductive SealTask where
  | attempt
  | check (deadline : Nat) (notified : Bool)
  | parked (deadline : Nat) (notified : Bool)
  | ended (result : Except AureliaError Unit)

def SealTask.notify (task : SealTask) (notified : Bool) : SealTask :=
  match task with
  | check deadline before => check deadline (before || notified)
  | parked deadline before => parked deadline (before || notified)
  | other => other

structure SealRun where
  history : OutboundHistory
  sendTimeout : Nat
  clock : Nat
  task : SealTask

inductive SealLabel where
  | poll
  | tick (elapsed : Nat)
  | other (op : RingOp)
deriving DecidableEq

namespace SealRun

/-- One poll of the task, from one suspension to the next.  A parked task that was neither
notified nor timed out stays parked. -/
def poll (run : SealRun) : SealRun :=
  match run.task with
  | .attempt =>
    { run with
      history := run.history.apply .sealTurn
      task :=
        match run.history.ring.sealTurn.2 with
        | .done result => .ended result
        | .waitForCapacity => .check (run.clock + run.sendTimeout) false }
  | .check deadline notified =>
    { run with
      task :=
        match run.history.ring.checkCapacity with
        | some (.ok ()) => .attempt
        | some (.error error) => .ended (.error error)
        | none =>
          if deadline ≤ run.clock then .ended (.error (.new .sendTimeout))
          else .parked deadline notified }
  | .parked deadline notified =>
    { run with
      task :=
        if notified then .check deadline false
        else if deadline ≤ run.clock then .ended (.error (.new .sendTimeout))
        else .parked deadline notified }
  | .ended _ => run

@[simp] theorem poll_clock (run : SealRun) : run.poll.clock = run.clock := by
  unfold poll
  split <;> rfl

@[simp] theorem poll_sendTimeout (run : SealRun) : run.poll.sendTimeout = run.sendTimeout := by
  unfold poll
  split <;> rfl

def step (run : SealRun) : SealLabel → Option SealRun
  | .poll => some run.poll
  | .tick elapsed => some { run with clock := run.clock + elapsed }
  | .other op =>
    if op.isForeign then
      some { run with
        history := run.history.apply op
        task := run.task.notify (run.history.ring.notifies op) }
    else none

def start (history : OutboundHistory) (sendTimeout clock : Nat) : SealRun :=
  ⟨history, sendTimeout, clock, .attempt⟩

def system (history : OutboundHistory) (sendTimeout : Nat) : Machine.System SealRun SealLabel :=
  .ofStep (fun run => ∃ clock, run = start history sendTimeout clock) step

def isEnded (run : SealRun) : Bool :=
  match run.task with
  | .ended _ => true
  | _ => false

/-- Counted from a first poll the timeout has elapsed, and since then the task was polled at
least `polls` times. -/
def Overdue (history : OutboundHistory) (sendTimeout polls : Nat) (run : SealRun) : Prop :=
  ∃ first late middle after,
    (system history sendTimeout).Reachable first ∧
    (system history sendTimeout).Run first.poll middle late ∧
    first.clock + sendTimeout ≤ late.clock ∧
    (system history sendTimeout).Run late after run ∧
    polls ≤ after.count .poll

end SealRun

namespace OutboundHistory

/-- Sealing is bounded by its timeout: some number of polls after it suffices. -/
def SealBounded (history : OutboundHistory) (sendTimeout : Nat) : Prop :=
  ∃ polls, ∀ run, SealRun.Overdue history sendTimeout polls run → run.isEnded = true

end OutboundHistory

namespace OutboundRingBuffer

/-- An attempt that follows a successful check at once does not have to wait again. -/
def SealProgresses (ring : OutboundRingBuffer) : Prop :=
  ring.checkCapacity = some (.ok ()) → ∃ result, ring.sealTurn.2 = .done result

/-- A push that follows a successful check at once takes a byte, or ends with an error. -/
def PushProgresses (ring : OutboundRingBuffer) : Prop :=
  ring.checkCapacity = some (.ok ()) →
    ∀ data, data ≠ [] → (ring.tryPushAvailable data).2 ≠ .ok .full

/-- The last chunk has to be made from a write buffer that is not full, and every slot of the
window is taken. -/
def SealBlocked (ring : OutboundRingBuffer) : Prop :=
  (ring.lifecycle = .opened ∨ ring.lifecycle = .sealing) ∧
    ring.chunks.size.windowSize ≤ ring.chunks.liveChunkCount + ring.chunks.pendingCount ∧
    ring.chunks.writeBuf.length < ring.chunks.size.chunkSize ∧
    (ring.chunks.pendingFull = none ∨ ring.chunks.writeBuf ≠ [])

def SealReady (ring : OutboundRingBuffer) : Prop :=
  ring.lifecycle ≠ .opened ∧ ring.lifecycle ≠ .sealing ∨
    ring.chunks.hasWindowCapacityFor ring.chunks.needsExtra = true

variable {next ring : OutboundRingBuffer}

theorem sealTurn_of_ready (ready : ring.SealReady) :
    ∃ result, ring.sealTurn.2 = .done result := by
  rcases ring.sealTurn_cases with ⟨result, turn, _⟩ | ⟨early, ⟨_, waits, _⟩ | ⟨_, _, _, turn⟩⟩
  · exact ⟨result, congrArg Prod.snd turn⟩
  · rcases ready with ⟨notOpened, notSealing⟩ | room
    · exact (early.elim notOpened notSealing).elim
    · rw [finalize, if_pos room] at waits
      cases waits
  · exact ⟨.ok (), congrArg Prod.snd turn⟩

theorem sealTurn_of_blocked (blocked : ring.SealBlocked) :
    ring.sealTurn = (⟨.sealing, ring.chunks⟩, .waitForCapacity) := by
  obtain ⟨early, _, _, partly⟩ := blocked
  have needs : ring.chunks.needsExtra = 1 := by
    unfold needsExtra
    split
    · rename_i pending empty
      rcases partly with none | filled
      · rw [none] at pending
        cases pending
      · exact absurd (isEmpty_iff.mp empty) filled
    · rfl
    · rfl
  have full : ¬ ring.chunks.hasWindowCapacityFor ring.chunks.needsExtra := by
    rw [needs, hasWindowCapacityFor, decide_eq_true_eq]
    omega
  have waits : ring.chunks.finalize = (ring.chunks, .waitForCapacity) := by
    rw [finalize, if_neg full]
  rcases early with opened | sealing
  · simp [sealTurn, opened, waits, OutboundLifecycle.sealError,
      OutboundLifecycle.finalChunkMaterialized, OutboundLifecycle.markSealed]
  · simp [sealTurn, sealing, waits, OutboundLifecycle.sealError,
      OutboundLifecycle.finalChunkMaterialized, OutboundLifecycle.markSealed]

theorem checkCapacity_of_blocked (blocked : ring.SealBlocked) :
    ring.checkCapacity = some (.ok ()) := by
  obtain ⟨early, _, short, _⟩ := blocked
  have accepts : ring.chunks.canAcceptBytes = true := by
    simp [canAcceptBytes, short]
  rcases early with opened | sealing
  · simp [checkCapacity, opened, accepts, OutboundLifecycle.failure, OutboundLifecycle.isClosed]
  · simp [checkCapacity, sealing, accepts, OutboundLifecycle.failure, OutboundLifecycle.isClosed]

theorem sealBlocked_sealing (blocked : ring.SealBlocked) :
    SealBlocked ⟨.sealing, ring.chunks⟩ :=
  ⟨.inr rfl, blocked.2⟩

/-- What keeps the wait from succeeding in vain: the next attempt ends, or the write buffer is
full, so that only a free slot lets the check succeed. -/
def SealGuarded (ring : OutboundRingBuffer) : Prop :=
  ring.SealReady ∨ ring.chunks.size.chunkSize ≤ ring.chunks.writeBuf.length

theorem sealGuarded_of_not_blocked (clear : ¬ ring.SealBlocked)
    (window : ring.chunks.liveChunkCount + ring.chunks.pendingCount ≤
      ring.chunks.size.windowSize) : ring.SealGuarded := by
  by_cases early : ring.lifecycle = .opened ∨ ring.lifecycle = .sealing
  · by_cases full : ring.chunks.size.chunkSize ≤ ring.chunks.writeBuf.length
    · exact .inr full
    · refine .inl (.inr ?_)
      rw [hasWindowCapacityFor, decide_eq_true_eq]
      by_cases whole : ring.chunks.pendingFull = none ∨ ring.chunks.writeBuf ≠ []
      · have free : ring.chunks.liveChunkCount + ring.chunks.pendingCount <
            ring.chunks.size.windowSize := by
          refine Nat.lt_of_not_le fun exhausted => clear ?_
          exact ⟨early, exhausted, Nat.lt_of_not_le full, whole⟩
        have needs : ring.chunks.needsExtra ≤ 1 := by
          unfold needsExtra
          split <;> omega
        omega
      · obtain ⟨pending, empty⟩ := not_or.mp whole
        have some := Option.isSome_iff_ne_none.mpr pending
        have needs : ring.chunks.needsExtra = 0 := by
          simp [needsExtra, some, Classical.not_not.mp empty]
        omega
  · exact .inl (.inl (not_or.mp early))

theorem canAcceptBytes_of_check
    (checked : ring.checkCapacity = some (.ok ())) : ring.chunks.canAcceptBytes = true := by
  unfold checkCapacity at checked
  split at checked
  · cases checked
  · split at checked
    · cases checked
    · split at checked
      · assumption
      · cases checked

theorem sealReady_of_check (guarded : ring.SealGuarded)
    (checked : ring.checkCapacity = some (.ok ())) : ring.SealReady := by
  rcases guarded with ready | _
  · exact ready
  · refine .inr ?_
    have accepts := canAcceptBytes_of_check checked
    have needs : ring.chunks.needsExtra ≤ 1 := by
      unfold needsExtra
      split <;> omega
    simp only [canAcceptBytes, hasWindowCapacityFor,
      Bool.or_eq_true, decide_eq_true_eq] at accepts ⊢
    omega

theorem SealReady.of_handled (ready : ring.SealReady)
    (handled : ring.chunks.Handled next.chunks)
    (kept : next.lifecycle = ring.lifecycle ∨ next.lifecycle.Ended) : next.SealReady := by
  rcases ready with late | room
  · refine .inl ?_
    rcases kept with same | ended
    · exact same ▸ late
    · exact ⟨fun opened => by simp [opened, OutboundLifecycle.Ended] at ended,
        fun sealing => by simp [sealing, OutboundLifecycle.Ended] at ended⟩
  · refine .inr ?_
    have live := handled.live
    have pending : next.chunks.pendingCount = ring.chunks.pendingCount := by
      simp only [pendingCount, handled.pendingFull]
    have needs : next.chunks.needsExtra = ring.chunks.needsExtra := by
      simp only [needsExtra, handled.pendingFull, handled.writeBuf]
    rw [hasWindowCapacityFor, decide_eq_true_eq] at room ⊢
    rw [pending, needs, handled.size]
    omega

theorem SealGuarded.of_handled (guarded : ring.SealGuarded)
    (handled : ring.chunks.Handled next.chunks)
    (kept : next.lifecycle = ring.lifecycle ∨ next.lifecycle.Ended) : next.SealGuarded := by
  rcases guarded with ready | full
  · exact .inl (ready.of_handled handled kept)
  · refine .inr ?_
    rw [handled.size, handled.writeBuf]
    exact full

end OutboundRingBuffer

namespace SealRun

variable {history : OutboundHistory} {sendTimeout deadline : Nat} {run next : SealRun}

/-! ### A blocked seal spins -/

/-- Neither parked nor ended, over a ring on which every check succeeds and every attempt
waits. -/
def Spinning (run : SealRun) : Prop :=
  run.history.ring.SealBlocked ∧
    (run.task = .attempt ∨ ∃ deadline notified, run.task = .check deadline notified)

theorem Spinning.poll (spinning : run.Spinning) : run.poll.Spinning := by
  obtain ⟨blocked, attempt | ⟨_, _, check⟩⟩ := spinning
  · have turn := OutboundRingBuffer.sealTurn_of_blocked blocked
    have ring : run.poll.history.ring = ⟨.sealing, run.history.ring.chunks⟩ := by
      simp only [SealRun.poll, attempt, OutboundHistory.apply, turn]
    refine ⟨?_, .inr ⟨run.clock + run.sendTimeout, false, ?_⟩⟩
    · rw [ring]
      exact OutboundRingBuffer.sealBlocked_sealing blocked
    · simp only [SealRun.poll, attempt, turn]
  · have checked := OutboundRingBuffer.checkCapacity_of_blocked blocked
    refine ⟨?_, .inl ?_⟩
    · simpa only [SealRun.poll, check] using blocked
    · simp only [SealRun.poll, check, checked]

theorem Spinning.not_ended (spinning : run.Spinning) : run.isEnded = false := by
  obtain ⟨_, attempt | ⟨_, _, check⟩⟩ := spinning
  · simp only [isEnded, attempt]
  · simp only [isEnded, check]

theorem Spinning.polls (spinning : run.Spinning) (count : Nat) :
    ∃ last, (system history sendTimeout).Run run (replicate count .poll) last ∧
      last.Spinning := by
  induction count with
  | zero => exact ⟨run, .nil run, spinning⟩
  | succ count ih =>
    obtain ⟨last, taken, still⟩ := ih
    refine ⟨last.poll, ?_, still.poll⟩
    rw [replicate_succ']
    exact .snoc taken rfl

theorem not_bounded_of_blocked (blocked : history.ring.SealBlocked) :
    ¬ history.SealBounded sendTimeout := by
  rintro ⟨polls, bounded⟩
  have spinning : (start history sendTimeout 0).Spinning := ⟨blocked, .inl rfl⟩
  let first := (start history sendTimeout 0).poll
  let late := { first with clock := first.clock + sendTimeout }
  have waiting : late.Spinning := spinning.poll
  obtain ⟨last, taken, still⟩ := @Spinning.polls history sendTimeout late waiting polls
  have ended := bounded last ⟨_, late, [.tick sendTimeout], _, .start ⟨0, rfl⟩, .single rfl,
    Nat.le_refl _, taken, Nat.le_of_eq count_replicate_self.symm⟩
  cases still.not_ended.symm.trans ended

/-! ### A guarded seal ends -/

theorem foreign_handled (history : OutboundHistory) {op : RingOp} (foreign : op.isForeign = true) :
    history.ring.chunks.Handled (history.apply op).ring.chunks ∧
      ((history.apply op).ring.lifecycle = history.ring.lifecycle ∨
        (history.apply op).ring.lifecycle.Ended) := by
  have refl := OutboundChunks.Handled.refl history.ring.chunks
  cases op with
  | push data | sealTurn => cases foreign
  | lease callisId peerMsgId =>
    simp only [OutboundHistory.apply]
    split
    · exact ⟨refl, .inl rfl⟩
    · rename_i lease ring leased
      unfold OutboundRingBuffer.leaseNextChunkForWrite at leased
      split at leased
      · obtain ⟨_, given, result⟩ := Option.map_eq_some_iff.mp leased
        cases result
        exact ⟨leaseNextChunkForWrite_handled given, .inl rfl⟩
      · cases leased
  | markInflight lease => exact ⟨history.ring.chunks.markInflight_handled lease, .inl rfl⟩
  | loseCallis callisId =>
    exact ⟨history.ring.chunks.markCallisReplayReady_handled callisId, .inl rfl⟩
  | ack peerMsgId => exact ⟨history.ring.chunks.noteCompletion_handled peerMsgId .ack, .inl rfl⟩
  | error peerMsgId error =>
    exact ⟨history.ring.chunks.noteCompletion_handled peerMsgId .error, .inr trivial⟩
  | complete => exact ⟨refl, .inr history.ring.lifecycle.markComplete_ended⟩
  | fail error => exact ⟨refl, .inr (history.ring.lifecycle.markFailed_ended error)⟩
  | close => exact ⟨refl, .inr history.ring.lifecycle.markClosed_ended⟩

theorem sealGuarded_sealTurn {ring : OutboundRingBuffer} (guarded : ring.SealGuarded)
    (waits : ring.sealTurn.2 = .waitForCapacity) : ring.sealTurn.1.SealGuarded := by
  rcases guarded with ready | full
  · obtain ⟨result, done⟩ := OutboundRingBuffer.sealTurn_of_ready ready
    cases waits.symm.trans done
  · refine .inr ?_
    rcases ring.sealTurn_cases with
      ⟨result, turn, _⟩ | ⟨_, ⟨_, finalized, turn⟩ | ⟨_, _, _, turn⟩⟩
    · rw [turn]
      exact full
    · unfold finalize at finalized
      split at finalized
      · cases finalized
      · cases finalized
        rw [turn]
        exact full
    · rw [turn] at waits
      cases waits

/-- The task waits under a guarded ring until `limit` at the latest, and `Attempt` holds where it
is about to attempt. -/
inductive Sealing (Attempt : OutboundRingBuffer → Prop) (limit : Nat) (ring : OutboundRingBuffer) :
    SealTask → Prop where
  | attempt (ready : Attempt ring) : Sealing Attempt limit ring .attempt
  | check {deadline : Nat} {notified : Bool} (within : deadline ≤ limit)
      (guarded : ring.SealGuarded) : Sealing Attempt limit ring (.check deadline notified)
  | parked {deadline : Nat} {notified : Bool} (within : deadline ≤ limit)
      (guarded : ring.SealGuarded) : Sealing Attempt limit ring (.parked deadline notified)
  | ended (result : Except AureliaError Unit) : Sealing Attempt limit ring (.ended result)

section Sealing

variable {Attempt : OutboundRingBuffer → Prop} {limit : Nat} {run : SealRun}
variable {ring : OutboundRingBuffer} {task : SealTask}

theorem Sealing.poll (sealing : Sealing Attempt limit run.history.ring run.task)
    (attempts : ∀ ring, Attempt ring →
      ring.SealReady ∨ ring.SealGuarded ∧ run.clock + run.sendTimeout ≤ limit) :
    Sealing OutboundRingBuffer.SealReady limit run.poll.history.ring run.poll.task := by
  obtain ⟨_, _, _, task⟩ := run
  cases sealing with
  | attempt ready =>
    simp only [SealRun.poll]
    split
    · exact .ended _
    · rename_i waits
      rcases attempts _ ready with ready | ⟨guarded, within⟩
      · obtain ⟨result, done⟩ := OutboundRingBuffer.sealTurn_of_ready ready
        cases waits.symm.trans done
      · exact .check within (sealGuarded_sealTurn guarded waits)
  | check within guarded =>
    simp only [SealRun.poll]
    split
    · rename_i checked
      exact .attempt (OutboundRingBuffer.sealReady_of_check guarded checked)
    · exact .ended _
    · split
      · exact .ended _
      · exact .parked within guarded
  | parked within guarded =>
    simp only [SealRun.poll]
    split
    · exact .check within guarded
    · split
      · exact .ended _
      · exact .parked within guarded
  | ended result => exact .ended result

theorem Sealing.other (sealing : Sealing Attempt limit run.history.ring run.task) {op : RingOp}
    (foreign : op.isForeign = true)
    (stable : ∀ next : OutboundRingBuffer, run.history.ring.chunks.Handled next.chunks →
      (next.lifecycle = run.history.ring.lifecycle ∨ next.lifecycle.Ended) →
      Attempt run.history.ring → Attempt next) (notified : Bool) :
    Sealing Attempt limit (run.history.apply op).ring (run.task.notify notified) := by
  obtain ⟨handled, kept⟩ := foreign_handled run.history foreign
  obtain ⟨history, sendTimeout, clock, task⟩ := run
  cases sealing with
  | attempt ready => exact .attempt (stable _ handled kept ready)
  | check within guarded => exact .check within (guarded.of_handled handled kept)
  | parked within guarded => exact .parked within (guarded.of_handled handled kept)
  | ended result => exact .ended result

theorem Sealing.mono {later : Nat}
    (sealing : Sealing Attempt limit ring task) (le : limit ≤ later) :
    Sealing Attempt later ring task := by
  cases sealing with
  | attempt ready => exact .attempt ready
  | check within guarded => exact .check (within.trans le) guarded
  | parked within guarded => exact .parked (within.trans le) guarded
  | ended result => exact .ended result

theorem Sealing.weaken (sealing : Sealing OutboundRingBuffer.SealReady limit ring task) :
    Sealing OutboundRingBuffer.SealGuarded limit ring task := by
  cases sealing with
  | attempt ready => exact .attempt (.inl ready)
  | check within guarded => exact .check within guarded
  | parked within guarded => exact .parked within guarded
  | ended result => exact .ended result

end Sealing

/-- From the call on, every deadline is within the timeout. -/
def Called (sendTimeout : Nat) (run : SealRun) : Prop :=
  run.sendTimeout = sendTimeout ∧
    Sealing OutboundRingBuffer.SealGuarded (run.clock + run.sendTimeout) run.history.ring run.task

variable {label : SealLabel} {limit : Nat}

theorem Called.poll (called : run.Called sendTimeout) :
    Sealing OutboundRingBuffer.SealReady (run.poll.clock + sendTimeout) run.poll.history.ring
      run.poll.task := by
  obtain ⟨rfl, sealing⟩ := called
  rw [poll_clock]
  exact sealing.poll fun ring guarded => .inr ⟨guarded, Nat.le_refl _⟩

theorem Called.step (called : run.Called sendTimeout)
    (stepped : run.step label = some next) : next.Called sendTimeout := by
  cases label with
  | poll =>
    cases stepped
    refine ⟨(poll_sendTimeout run).trans called.1, ?_⟩
    rw [poll_sendTimeout, called.1]
    exact called.poll.weaken
  | tick elapsed =>
    cases stepped
    exact ⟨called.1, called.2.mono (Nat.add_le_add_right (Nat.le_add_right _ _) _)⟩
  | other op =>
    obtain ⟨foreign, stepped⟩ := Option.ite_none_right_eq_some.mp stepped
    cases stepped
    exact ⟨called.1, called.2.other foreign
      (fun _ handled kept guarded => guarded.of_handled handled kept) _⟩

theorem Sealing.step
    (sealing : Sealing OutboundRingBuffer.SealReady limit run.history.ring run.task)
    (stepped : run.step label = some next) :
    Sealing OutboundRingBuffer.SealReady limit next.history.ring next.task := by
  cases label with
  | poll =>
    cases stepped
    exact sealing.poll fun ring ready => .inl ready
  | tick elapsed =>
    cases stepped
    exact sealing
  | other op =>
    obtain ⟨foreign, stepped⟩ := Option.ite_none_right_eq_some.mp stepped
    cases stepped
    exact sealing.other foreign (fun _ handled kept ready => ready.of_handled handled kept) _

/-- The polls that may be left once the timeout has elapsed. -/
def rank (run : SealRun) : Nat :=
  match run.task with
  | .ended _ => 0
  | .attempt => 1
  | .check _ _ => 2
  | .parked _ _ => 3

theorem isEnded_of_rank (zero : run.rank = 0) : run.isEnded = true := by
  unfold rank at zero
  unfold isEnded
  cases task : run.task with
  | ended result => rfl
  | attempt | check _ _ | parked _ _ =>
    rw [task] at zero
    cases zero

theorem rank_poll (sealing : Sealing OutboundRingBuffer.SealReady limit run.history.ring run.task)
    (elapsed : limit ≤ run.clock) : run.poll.rank ≤ run.rank - 1 := by
  obtain ⟨history, _⟩ := run
  cases sealing with
  | attempt ready =>
    obtain ⟨result, done⟩ := OutboundRingBuffer.sealTurn_of_ready ready
    simp only [SealRun.poll, rank, done]
    exact Nat.le_refl _
  | check within guarded =>
    simp only [SealRun.poll, rank, if_pos (within.trans elapsed)]
    rcases history.ring.checkCapacity with _ | _ | _
    · exact Nat.zero_le 1
    · exact Nat.zero_le 1
    · exact Nat.le_refl 1
  | @parked deadline notified within guarded =>
    simp only [SealRun.poll, rank, if_pos (within.trans elapsed)]
    cases notified
    · exact Nat.zero_le 2
    · exact Nat.le_refl 2
  | ended result => exact Nat.le_refl _

theorem rank_step (stepped : run.step label = some next)
    (idle : label ≠ .poll) : next.rank = run.rank ∧ run.clock ≤ next.clock := by
  cases label with
  | poll => exact absurd rfl idle
  | tick elapsed =>
    cases stepped
    exact ⟨rfl, Nat.le_add_right _ _⟩
  | other op =>
    obtain ⟨_, stepped⟩ := Option.ite_none_right_eq_some.mp stepped
    cases stepped
    refine ⟨?_, Nat.le_refl _⟩
    unfold rank
    cases run.task <;> rfl

theorem rank_run {labels : List SealLabel} {late last : SealRun}
    (sealing : Sealing OutboundRingBuffer.SealReady limit late.history.ring late.task)
    (elapsed : limit ≤ late.clock) (taken : (system history sendTimeout).Run late labels last) :
    Sealing OutboundRingBuffer.SealReady limit last.history.ring last.task ∧
      limit ≤ last.clock ∧ last.rank ≤ late.rank - labels.count .poll := by
  induction taken with
  | nil => exact ⟨sealing, elapsed, Nat.le_refl _⟩
  | @snoc middle finish labels label _ stepped ih =>
    obtain ⟨settled, reached, bound⟩ := ih
    rw [count_append]
    by_cases polled : label = .poll
    · subst polled
      have closer := rank_poll settled reached
      refine ⟨settled.step stepped, ?_, ?_⟩
      · cases stepped
        rwa [poll_clock]
      · cases stepped
        rw [count_singleton_self]
        omega
    · obtain ⟨same, later⟩ := rank_step stepped polled
      refine ⟨settled.step stepped, reached.trans later, ?_⟩
      have uncounted : [label].count .poll = 0 := count_singleton.trans (by simp [polled])
      rw [same, uncounted]
      exact bound

theorem rank_le (run : SealRun) : run.rank ≤ 3 := by
  unfold rank
  split <;> omega

theorem bounded_of_guarded (guarded : history.ring.SealGuarded) :
    history.SealBounded sendTimeout := by
  refine ⟨3, ?_⟩
  rintro run ⟨first, late, _, _, reached, waited, elapsed, overdue, _⟩
  have called : first.Called sendTimeout := by
    refine reached.invariant ?_ (fun _ _ _ before stepped => before.step stepped)
    rintro _ ⟨_, rfl⟩
    exact ⟨rfl, .attempt guarded⟩
  have settled := @Machine.System.Run.preserves _ _ _
    (fun run => Sealing OutboundRingBuffer.SealReady (first.clock + sendTimeout) run.history.ring
      run.task) (fun _ _ _ before stepped => before.step stepped) _ _ _ waited
    (poll_clock first ▸ called.poll)
  obtain _ := rank_run settled elapsed overdue
  have small := late.rank_le
  apply isEnded_of_rank
  omega

end SealRun

/-! ### Pushing -/

namespace OutboundChunks

variable {chunks : OutboundChunks}

theorem pushFull_rest_le (fuel : Nat) (chunks : OutboundChunks) (rest : Bytes) (notify : Bool) :
    (pushFull fuel chunks rest notify).2.1.length ≤ rest.length := by
  induction fuel generalizing chunks rest notify with
  | zero => exact Nat.le_refl _
  | succ fuel ih =>
    rw [pushFull]
    split
    · exact Nat.le_refl _
    · dsimp only
      split
      · exact Nat.le_refl _
      · refine (ih _ _ _).trans ?_
        simp only [fill, length_drop]
        exact Nat.sub_le _ _

theorem fill_lt {data : Bytes} (space : chunks.writeBuf.length < chunks.size.chunkSize)
    (some : data ≠ []) : (chunks.fill data).2.length < data.length := by
  have nonempty := length_pos_iff.mpr some
  simp only [fill, length_drop]
  omega

theorem pushAvailable_pos (buffered : chunks.writeBuf.length ≤ chunks.size.chunkSize)
    (accepts : chunks.canAcceptBytes = true) {data : Bytes} (some : data ≠ []) :
    0 < (chunks.pushAvailable data).2.1 := by
  suffices taken : (pushFull ((chunks.fill data).2.length + 1) (chunks.fill data).1
      (chunks.fill data).2 false).2.1.length < data.length by
    exact Nat.sub_pos_of_lt taken
  by_cases space : chunks.writeBuf.length < chunks.size.chunkSize
  · exact (pushFull_rest_le _ _ _ _).trans_lt (fill_lt space some)
  · -- the buffer is full: nothing is taken before the loop, whose first turn empties it
    have full : chunks.size.chunkSize - chunks.writeBuf.length = 0 := by omega
    have unfilled : chunks.fill data = (chunks, data) := by
      simp [fill, full]
    have room : chunks.hasWindowCapacityFor 1 = true := by
      simpa [canAcceptBytes, space] using accepts
    have turn : ¬ (chunks.writeBuf.length < chunks.size.chunkSize ∨
        ¬ chunks.hasWindowCapacityFor 1 = true) := by
      simp [space, room]
    rw [unfilled, pushFull, if_neg turn]
    dsimp only
    rw [if_neg some]
    refine (pushFull_rest_le _ _ _ _).trans_lt (fill_lt ?_ some)
    rw [splitFull_writeBuf, splitFull_size, length_drop]
    have positive := chunks.size.chunkSize_pos
    omega

end OutboundChunks

namespace OutboundRingBuffer
variable {ring : OutboundRingBuffer}

theorem pushProgresses (buffered : ring.chunks.writeBuf.length ≤ ring.chunks.size.chunkSize) :
    ring.PushProgresses := by
  intro checked data some full
  have accepts := canAcceptBytes_of_check checked
  have positive := pushAvailable_pos buffered accepts some
  unfold tryPushAvailable at full
  split at full
  · cases full
  · rw [if_pos accepts] at full
    simp only [if_neg (Nat.ne_of_gt positive)] at full
    cases full

theorem sealProgresses_iff (window : ring.chunks.liveChunkCount + ring.chunks.pendingCount ≤
      ring.chunks.size.windowSize) : ring.SealProgresses ↔ ¬ ring.SealBlocked := by
  constructor
  · intro progresses blocked
    obtain ⟨_, done⟩ := progresses (checkCapacity_of_blocked blocked)
    rw [sealTurn_of_blocked blocked] at done
    cases done
  · intro clear checked
    exact sealTurn_of_ready (sealReady_of_check (sealGuarded_of_not_blocked clear window) checked)

end OutboundRingBuffer

namespace OutboundHistory

def Reached (size : RingSize) (history : OutboundHistory) : Prop :=
  ∃ ops : List RingOp, history = ops.foldl apply (new size)

theorem Sound.foldl {history : OutboundHistory} {created : List Chunk}
    (sound : history.Sound created) (ops : List RingOp) :
    ∃ all, (ops.foldl OutboundHistory.apply history).Sound all := by
  induction ops generalizing history created with
  | nil => exact ⟨created, sound⟩
  | cons op rest ih =>
    obtain ⟨_, _, next⟩ := sound.apply op
    exact ih next

/-- Whatever was done to a ring before, sealing it ends once its timeout has elapsed exactly when
the ring is not blocked: for every schedule of polls, clock ticks and operations of other tasks.
The same condition decides whether an attempt after a successful wait makes progress; a push after
one always does. -/
theorem sealBounded_iff (size : RingSize) (history : OutboundHistory)
    (reached : history.Reached size) (sendTimeout : Nat) :
    (history.SealBounded sendTimeout ↔ ¬ history.ring.SealBlocked) ∧
      (history.ring.SealProgresses ↔ ¬ history.ring.SealBlocked) ∧
      history.ring.PushProgresses := by
  obtain ⟨ops, rfl⟩ := reached
  obtain ⟨_, sound⟩ := (Sound.start size).foldl ops
  have window := sound.assembled.window
  refine ⟨⟨?_, ?_⟩, OutboundRingBuffer.sealProgresses_iff window,
    OutboundRingBuffer.pushProgresses sound.assembled.buffered⟩
  · intro bounded blocked
    exact SealRun.not_bounded_of_blocked blocked bounded
  · intro clear
    exact SealRun.bounded_of_guarded (OutboundRingBuffer.sealGuarded_of_not_blocked clear window)

def quads : RingSize := ⟨4, 1, by decide, by decide⟩

/-- A full write buffer over an exhausted window: sealing it waits for the one chunk in the
window. -/
theorem sealBounded_iff_full :
    ∃ history : OutboundHistory, history.Reached quads ∧
      history.ring.chunks.liveChunkCount = quads.windowSize ∧ history.SealBounded 1000 := by
  have reached : Reached quads ([.push [1, 2, 3, 4], .push [5], .push [6, 7, 8]].foldl apply
      (new quads)) := ⟨_, rfl⟩
  refine ⟨_, reached, by decide, (sealBounded_iff quads _ reached 1000).1.mpr ?_⟩
  rintro ⟨_, _, short, _⟩
  exact absurd short (by decide)

/-- Five bytes are pushed and the stream is sealed while the first chunk is not acknowledged. -/
theorem partial_buffer_never_times_out :
    ∃ history : OutboundHistory, history.Reached quads ∧
      history.accepted = [1, 2, 3, 4, 5] ∧ ∀ sendTimeout, ¬ history.SealBounded sendTimeout := by
  refine ⟨[.push [1, 2, 3, 4], .push [5]].foldl apply (new quads), ⟨_, rfl⟩, by decide, ?_⟩
  intro sendTimeout
  apply SealRun.not_bounded_of_blocked
  refine ⟨.inl ?_, ?_, ?_, .inl ?_⟩
  all_goals decide

end OutboundHistory

end AureliaPeering.Ring
