import AureliaPeering.Session.PeerSession
import AureliaPeering.Store.Completion
import AureliaPeering.Store.Shutdown

/-!
Sends that overlap the closing of their session.

`create_outgoing` checks the closing flag, reads the configuration, which it awaits, and only then
inserts its message.  Closing sets the flag and then fails the stored messages, without shutting the
store down.  The steps of the two may interleave in any way.
-/

namespace AureliaPeering.Store

open RetainedStore List

/-- A change that stores no message: the messages that have gone are those whose channels are
used. -/
structure Settles (before after : Contents) (effects : List CompletionEffect) : Prop where
  kept : ∀ id tracked, Holds after id tracked → Holds before id tracked
  answered : ∀ id tracked, Holds before id tracked →
    Holds after id tracked ∨ ∃ effect ∈ effects, effect.ackTx = tracked.ackTx
  gone : ∀ effect ∈ effects, ∃ id tracked, Holds before id tracked ∧ after id = none ∧
    effect.ackTx = tracked.ackTx

variable {after before : Contents} {items : List RetainedItem} {id : SlotId}
  {tracked : TrackedOutbound}

theorem Removals.kept (removals : Removals before items after)
    (holds : Holds after id tracked) : Holds before id tracked := by
  obtain ⟨stored, present, item_eq⟩ := holds
  exact ⟨stored, removals.of_remaining present, item_eq⟩

theorem Removals.holds_or_mem (removals : Removals before items after)
    (holds : Holds before id tracked) :
    Holds after id tracked ∨ RetainedItem.tracked tracked ∈ items := by
  obtain ⟨stored, present, item_eq⟩ := holds
  cases remains : after id with
  | none =>
    rw [← item_eq]
    exact .inr (removals.mem_of_gone present remains)
  | some held =>
    cases present.symm.trans (removals.of_remaining remains)
    exact .inl ⟨stored, remains, item_eq⟩

theorem Change.settles {op : Op} {output : Output}
    (change : Change op output before after)
    (other : ∀ tracked deadline now, op ≠ .insertTracked tracked deadline now) :
    Settles before after output.completions := by
  cases change with
  | kept silent _ =>
    rw [silent]
    constructor
    · exact fun _ _ holds => holds
    · exact fun _ _ holds => .inl holds
    · exact fun effect listed => absurd listed not_mem_nil
  | accepted inserts _ _ => exact absurd inserts (other _ _ _)
  | @responded id stored _ silent response _ vacant =>
    rw [silent]
    have same (position : SlotId) (tracked : TrackedOutbound) :
        Holds (Function.update before id (some stored)) position tracked ↔
          Holds before position tracked := by
      by_cases here : position = id
      · subst here
        simp only [Holds, Function.update_self, vacant]
        constructor
        · rintro ⟨_, present, item_eq⟩
          cases present
          rw [item_eq] at response
          cases response
        · rintro ⟨_, present, _⟩
          cases present
      · simp only [Holds, Function.update_of_ne here]
    constructor
    · exact fun position tracked => (same position tracked).mp
    · exact fun position tracked holds => .inl ((same position tracked).mpr holds)
    · exact fun effect listed => absurd listed not_mem_nil
  | completed result _ _ removals completions =>
    rw [completions]
    constructor
    · exact fun _ _ => removals.kept
    · intro id tracked holds
      rcases removals.holds_or_mem holds with remains | taken
      · exact .inl remains
      · apply Or.inr
        exact ⟨_, mem_flatMap.mpr ⟨_, taken, mem_singleton.mpr rfl⟩, rfl⟩
    · intro effect listed
      obtain ⟨item, taken, isEffect⟩ := mem_flatMap.mp listed
      obtain ⟨id, stored, present, same, gone⟩ := removals.of_mem taken
      cases item with
      | ack | error => cases isEffect
      | tracked outbound =>
        cases mem_singleton.mp isEffect
        exact ⟨id, outbound, ⟨stored, present, same⟩, gone, rfl⟩
  | cleared _ responses removals silent =>
    rw [silent]
    constructor
    · exact fun _ _ => removals.kept
    · intro id tracked holds
      rcases removals.holds_or_mem holds with remains | taken
      · exact .inl remains
      · cases responses _ taken
    · exact fun effect listed => absurd listed not_mem_nil

end AureliaPeering.Store

namespace AureliaPeering.Session

open Store Store.RetainedStore

/-- How far a call of `create_outgoing` and the wait for its answer have come. -/
inductive SendPhase where
  | idle
  | checked
  | waiting
  | rejected (error : AureliaError)
  | completed (result : Except AureliaError Unit)

/-- The first part of `create_outgoing`. -/
def checkClosing (closing : Bool) : SendPhase :=
  if closing then .rejected (.new .peerUnavailable) else .checked

/-- What `enqueue_message` makes of the answer of the store. -/
def enqueueOutcome : Except RetainedInsertError Unit → SendPhase
  | .ok _ => .waiting
  | .error (.full _) => .rejected (.new .localQueueFull)
  | .error (.shutdown _) => .rejected (.new .peerUnavailable)
  | .error (.expired _) => .rejected (.new .sendTimeout)
  | .error (.duplicate _) | .error (.a1Tracked _) =>
    .rejected (.new .protocolViolation)

def deliver (effects : List CompletionEffect) (send : AckSender) (phase : SendPhase) : SendPhase :=
  match phase, effects.find? (fun effect => decide (effect.ackTx = send)) with
  | .waiting, some effect => .completed effect.result
  | phase, _ => phase

/-- The session as its sends see it.  Each send has a channel of its own, which names it. -/
structure ClosingSession where
  dispatch : RetainedStore
  closing : Bool
  swept : Bool
  sends : AckSender → SendPhase

/-- What fails the stored messages: the end of `teardown_peer_handle`, or of `handle_close`. -/
inductive Sweep where
  | teardown
  | remoteClose

def Sweep.op (order : List SlotId) : Sweep → Op
  | .teardown => .failNonA1 (.new .peerUnavailable) order
  | .remoteClose => .failAll (.new .peerUnavailable) order

/-- Apart from the sends and the closing tasks, other tasks of the peer perform operations of the
store; no other task inserts messages. -/
inductive ClosingEvent where
  | start (send : AckSender)
  | insert (send : AckSender) (message : PeerMessage) (deadline now : Instant)
  | beginClose
  | sweep (sweep : Sweep) (order : List SlotId)
  | perform (op : Op)

namespace ClosingSession

/-- The store performs an operation, and its completions reach the sends. -/
def Performs (state : ClosingSession) (op : Op) (swept : Bool) (next : ClosingSession) : Prop :=
  ∃ output dispatch, Store.system.Step state.dispatch (op, output) dispatch ∧
    next = ⟨dispatch, state.closing, swept,
      fun send => deliver output.completions send (state.sends send)⟩

def system : Machine.System ClosingSession ClosingEvent where
  Initial state := ∃ capacities now,
    state = ⟨RetainedStore.new capacities now, false, false, fun _ => .idle⟩
  Step state event next :=
    match event with
    | .start send => state.sends send = .idle ∧
        next = { state with
          sends := Function.update state.sends send (checkClosing state.closing) }
    | .insert send message deadline now => state.sends send = .checked ∧
        ∃ result dispatch,
          state.dispatch.insertTracked ⟨message, send⟩ deadline now = .ok (result, dispatch) ∧
          next = { state with
            dispatch := dispatch
            sends := Function.update state.sends send (enqueueOutcome result) }
    | .beginClose => next = { state with closing := true }
    | .sweep sweep order => state.closing = true ∧ state.Performs (sweep.op order) true next
    | .perform op => (∀ tracked deadline now, op ≠ .insertTracked tracked deadline now) ∧
        state.Performs op state.swept next

/-- No call is between its check and its insertion when the messages are failed. -/
def Settled (state : ClosingSession) : ClosingEvent → Prop
  | .sweep _ _ => ∀ send, state.sends send ≠ .checked
  | _ => True

/-- The stored messages are those whose sends wait, one for each. -/
structure Matched (state : ClosingSession) : Prop where
  store : state.dispatch.Invariant
  stored : ∀ id tracked, Holds state.dispatch.contents id tracked →
    state.sends tracked.ackTx = .waiting
  unique : ∀ id other tracked another, Holds state.dispatch.contents id tracked →
    Holds state.dispatch.contents other another → tracked.ackTx = another.ackTx → id = other
  waits : ∀ send, state.sends send = .waiting →
    ∃ id tracked, Holds state.dispatch.contents id tracked ∧ tracked.ackTx = send

structure Invariant (state : ClosingSession) : Prop extends Matched state where
  flagged : state.swept = true → state.closing = true
  quiet : state.swept = true → ∀ send, state.sends send ≠ .checked ∧ state.sends send ≠ .waiting

section Deliver

variable {effects : List CompletionEffect} {send : AckSender} {phase : SendPhase}

theorem deliver_of_unanswered (unanswered : ∀ effect ∈ effects, effect.ackTx ≠ send) :
    deliver effects send phase = phase := by
  have nothing : effects.find? (fun effect => decide (effect.ackTx = send)) = none := by
    apply List.find?_eq_none.mpr
    intro effect listed
    rw [decide_eq_true_eq]
    exact unanswered effect listed
  unfold deliver
  rw [nothing]
  cases phase <;> rfl

theorem deliver_of_answered (answered : ∃ effect ∈ effects, effect.ackTx = send) :
    ∃ effect ∈ effects, effect.ackTx = send ∧
      deliver effects send .waiting = .completed effect.result := by
  obtain ⟨effect, listed, same⟩ := answered
  have found : (effects.find? (fun effect => decide (effect.ackTx = send))).isSome = true := by
    apply List.find?_isSome.mpr
    exact ⟨effect, listed, decide_eq_true same⟩
  obtain ⟨first, isFirst⟩ := Option.isSome_iff_exists.mp found
  refine ⟨first, List.mem_of_find?_eq_some isFirst, ?_, ?_⟩
  · have isAnswer := List.find?_some isFirst
    exact of_decide_eq_true isAnswer
  · unfold deliver
    rw [isFirst]

theorem of_deliver_checked (isChecked : deliver effects send phase = .checked) :
    phase = .checked := by
  unfold deliver at isChecked
  split at isChecked
  · cases isChecked
  · exact isChecked

theorem of_deliver_waiting (isWaiting : deliver effects send phase = .waiting) :
    phase = .waiting ∧ ∀ effect ∈ effects, effect.ackTx ≠ send := by
  have before : phase = .waiting := by
    unfold deliver at isWaiting
    split at isWaiting
    · cases isWaiting
    · exact isWaiting
  subst before
  refine ⟨rfl, ?_⟩
  intro effect listed same
  obtain ⟨_, _, _, completed⟩ := deliver_of_answered ⟨effect, listed, same⟩
  cases completed.symm.trans isWaiting

end Deliver

section Step

variable {state next : ClosingSession} {op : Op}
variable {swept : Bool} {send : AckSender} {dispatch : RetainedStore} {sweep : Sweep}
  {order : List SlotId}

theorem initial_invariant (initial : system.Initial state) : state.Invariant := by
  obtain ⟨capacities, now, rfl⟩ := initial
  have vacant (id : SlotId) (tracked : TrackedOutbound) :
      ¬ Holds (RetainedStore.new capacities now).contents id tracked := by
    rintro ⟨_, present, _⟩
    rw [new_contents] at present
    cases present
  constructor
  · constructor
    · exact new_invariant capacities now
    · exact fun id tracked holds => absurd holds (vacant id tracked)
    · exact fun id _ tracked _ holds => absurd holds (vacant id tracked)
    · nofun
  · nofun
  · nofun

theorem Matched.performs (matched : state.Matched)
    (other : ∀ tracked deadline now, op ≠ .insertTracked tracked deadline now)
    (performed : state.Performs op swept next) : next.Matched := by
  obtain ⟨output, dispatch, taken, rfl⟩ := performed
  obtain ⟨next_inv, change⟩ := step_invariant matched.store taken
  have settles := change.settles other
  have unanswered {id : SlotId} {tracked : TrackedOutbound}
      (remains : Holds dispatch.contents id tracked) :
      ∀ effect ∈ output.completions, effect.ackTx ≠ tracked.ackTx := by
    intro effect listed same
    obtain ⟨position, answered, holds, gone, channel⟩ := settles.gone effect listed
    obtain rfl :=
      matched.unique position id answered tracked holds (settles.kept id tracked remains)
      (channel.symm.trans same)
    obtain ⟨_, present, _⟩ := remains
    cases gone.symm.trans present
  constructor
  · exact next_inv
  · intro id tracked remains
    change deliver _ _ _ = _
    rw [deliver_of_unanswered (unanswered remains)]
    exact matched.stored id tracked (settles.kept id tracked remains)
  · intro id position tracked another first second
    exact matched.unique id position tracked another (settles.kept _ _ first)
      (settles.kept _ _ second)
  · intro send isWaiting
    obtain ⟨before, silent⟩ := of_deliver_waiting isWaiting
    obtain ⟨id, tracked, holds, rfl⟩ := matched.waits send before
    rcases settles.answered id tracked holds with remains | ⟨effect, listed, same⟩
    · exact ⟨id, tracked, remains, rfl⟩
    · exact absurd same (silent effect listed)

theorem Matched.insert (matched : state.Matched) {message : PeerMessage}
    {deadline now : Instant} (checked : state.sends send = .checked)
    {result : Except RetainedInsertError Unit}
    (inserted :
      state.dispatch.insertTracked ⟨message, send⟩ deadline now = .ok (result, dispatch)) :
    Matched { state with
      dispatch := dispatch
      sends := Function.update state.sends send (enqueueOutcome result) } := by
  have fresh {id : SlotId} {tracked : TrackedOutbound}
      (holds : Holds state.dispatch.contents id tracked) : tracked.ackTx ≠ send := by
    rintro rfl
    cases checked.symm.trans (matched.stored id tracked holds)
  obtain ⟨_, _, inserts, after_inv, outcome⟩ :=
    insertTracked_cases matched.store ⟨message, send⟩ deadline now
  cases inserted.symm.trans inserts
  rcases outcome with ⟨error, rfl, _, rfl, _⟩ | ⟨rfl, id, _, vacant, contents_eq, _⟩
  · have settled : enqueueOutcome (.error error) ≠ .waiting := by
      cases error <;> nofun
    constructor
    · exact matched.store
    · intro id tracked holds
      change Function.update _ _ _ _ = _
      rw [Function.update_of_ne (fresh holds)]
      exact matched.stored id tracked holds
    · exact matched.unique
    · intro other isWaiting
      change Function.update _ _ _ _ = _ at isWaiting
      rw [Function.update_apply] at isWaiting
      split at isWaiting
      · exact absurd isWaiting settled
      · exact matched.waits other isWaiting
  · have holds_iff (position : SlotId) (tracked : TrackedOutbound) :
        Holds dispatch.contents position tracked ↔
          (position = id ∧ tracked = ⟨message, send⟩) ∨
            (position ≠ id ∧ Holds state.dispatch.contents position tracked) := by
      rw [contents_eq]
      by_cases here : position = id
      · subst here
        simp [Holds, eq_comm]
      · simp [Holds, here]
    constructor
    · exact after_inv
    · intro position tracked holds
      change Function.update _ _ _ _ = _
      rcases (holds_iff position tracked).mp holds with ⟨_, rfl⟩ | ⟨_, before⟩
      · exact Function.update_self ..
      · rw [Function.update_of_ne (fresh before)]
        exact matched.stored position tracked before
    · intro position other tracked another first second same
      rcases (holds_iff position tracked).mp first with ⟨rfl, rfl⟩ | ⟨_, before⟩
      · rcases (holds_iff other another).mp second with ⟨rfl, _⟩ | ⟨_, older⟩
        · rfl
        · exact absurd same.symm (fresh older)
      · rcases (holds_iff other another).mp second with ⟨_, rfl⟩ | ⟨_, older⟩
        · exact absurd same (fresh before)
        · exact matched.unique position other tracked another before older same
    · intro other isWaiting
      change Function.update _ _ _ _ = _ at isWaiting
      rw [Function.update_apply] at isWaiting
      split at isWaiting
      · rename_i same
        exact ⟨id, ⟨message, send⟩, (holds_iff _ _).mpr (.inl ⟨rfl, rfl⟩), same.symm⟩
      · obtain ⟨position, tracked, before, same⟩ := matched.waits other isWaiting
        have apart : position ≠ id := by
          rintro rfl
          obtain ⟨stored, present, _⟩ := before
          cases vacant.symm.trans present
        exact ⟨position, tracked, (holds_iff _ _).mpr (.inr ⟨apart, before⟩), same⟩

/-- After a sweep no message is stored, and all it removed have failed with `peer-unavailable`. -/
theorem sweep_output (inv : state.dispatch.Invariant)
    {output : Output}
    (taken : Store.system.Step state.dispatch (sweep.op order, output) dispatch) :
    (∀ id tracked, ¬ Holds dispatch.contents id tracked) ∧
      ∀ effect ∈ output.completions,
        effect.result = .error (.new .peerUnavailable) := by
  have ordered : state.dispatch.tracked.ValueOrder order := by
    cases sweep <;> exact taken.1
  obtain ⟨completions_eq, rfl⟩ : output.completions =
        (state.dispatch.failAll (.new .peerUnavailable) order).1 ∧
      (state.dispatch.failAll (.new .peerUnavailable) order).2 = dispatch := by
    have same := failNonA1_eq_failAll inv ordered (.new .peerUnavailable)
    have performed := taken.2
    cases sweep with
    | teardown =>
      simp only [Sweep.op, Store.step, Except.ok.injEq, Prod.mk.injEq, same] at performed
      obtain ⟨rfl, rfl⟩ := performed
      exact ⟨rfl, rfl⟩
    | remoteClose =>
      simp only [Sweep.op, Store.step, Except.ok.injEq, Prod.mk.injEq] at performed
      obtain ⟨rfl, rfl⟩ := performed
      exact ⟨rfl, rfl⟩
  constructor
  · rintro id tracked ⟨stored, present, item_eq⟩
    have response := ((failAll_contents_iff inv ordered _ id stored).mp present).2
    rw [item_eq] at response
    cases response
  · intro effect listed
    rw [completions_eq] at listed
    obtain ⟨item, _, isEffect⟩ := List.mem_flatMap.mp listed
    cases item with
    | ack | error => cases isEffect
    | tracked outbound =>
      cases List.mem_singleton.mp isEffect
      rfl

theorem Sweep.op_ne_insertTracked (sweep : Sweep) (order : List SlotId)
    (tracked : TrackedOutbound) (deadline now : Instant) :
    sweep.op order ≠ .insertTracked tracked deadline now := by
  cases sweep <;> nofun

theorem sweep_completes (matched : state.Matched)
    (performed : state.Performs (sweep.op order) swept next)
    (waiting : state.sends send = .waiting) :
    next.sends send = .completed (.error (.new .peerUnavailable)) := by
  obtain ⟨_, _, taken, rfl⟩ := performed
  obtain ⟨emptied, results⟩ := sweep_output matched.store taken
  have settles := (step_invariant matched.store taken).2.settles
    (Sweep.op_ne_insertTracked sweep order)
  obtain ⟨id, tracked, holds, rfl⟩ := matched.waits send waiting
  have answered := (settles.answered id tracked holds).resolve_left (emptied id tracked)
  obtain ⟨effect, listed, _, completed⟩ := deliver_of_answered answered
  change deliver _ _ _ = _
  rw [waiting, completed, results effect listed]

theorem step_invariant {event : ClosingEvent} (inv : state.Invariant)
    (taken : (system.restrict Settled).Step state event next) : next.Invariant := by
  obtain ⟨taken, settled⟩ := taken
  cases event with
  | start send =>
    obtain ⟨idle, rfl⟩ := taken
    have kept {other : AckSender} {phase : SendPhase} (isWaiting : phase = .waiting)
        (at_other : Function.update state.sends send (checkClosing state.closing) other = phase) :
        state.sends other = phase := by
      rw [Function.update_apply] at at_other
      split at at_other
      · rw [isWaiting, checkClosing] at at_other
        split at at_other <;> cases at_other
      · exact at_other
    constructor
    · constructor
      · exact inv.store
      · intro id tracked holds
        have waiting := inv.stored id tracked holds
        change Function.update _ _ _ _ = _
        rw [Function.update_of_ne]
        · exact waiting
        · rintro rfl
          cases idle.symm.trans waiting
      · exact inv.unique
      · exact fun other isWaiting => inv.waits other (kept rfl isWaiting)
    · exact inv.flagged
    · intro swept other
      refine ⟨?_, fun isWaiting => (inv.quiet swept other).2 (kept rfl isWaiting)⟩
      change Function.update _ _ _ _ ≠ _
      rw [Function.update_apply, inv.flagged swept]
      split
      · nofun
      · exact (inv.quiet swept other).1
  | insert send message deadline now =>
    obtain ⟨checked, _, dispatch, inserted, rfl⟩ := taken
    constructor
    · exact inv.toMatched.insert checked inserted
    · exact inv.flagged
    · exact fun swept => absurd checked (inv.quiet swept send).1
  | beginClose =>
    cases taken
    constructor
    · exact ⟨inv.store, inv.stored, inv.unique, inv.waits⟩
    · exact fun _ => rfl
    · exact inv.quiet
  | sweep sweep order =>
    obtain ⟨closing, performed⟩ := taken
    constructor
    · exact inv.toMatched.performs (Sweep.op_ne_insertTracked sweep order) performed
    · obtain ⟨output, dispatch, _, rfl⟩ := performed
      exact fun _ => closing
    · intro _ send
      constructor
      · obtain ⟨output, dispatch, _, rfl⟩ := performed
        exact fun isChecked => settled send (of_deliver_checked isChecked)
      · intro isWaiting
        obtain ⟨output, dispatch, _, rfl⟩ := id performed
        have before := (of_deliver_waiting isWaiting).1
        cases (sweep_completes inv.toMatched performed before).symm.trans isWaiting
  | perform op =>
    obtain ⟨other, performed⟩ := taken
    constructor
    · exact inv.toMatched.performs other performed
    · obtain ⟨output, dispatch, _, rfl⟩ := performed
      exact inv.flagged
    · obtain ⟨output, dispatch, _, rfl⟩ := performed
      intro swept send
      constructor
      · exact fun isChecked => (inv.quiet swept send).1 (of_deliver_checked isChecked)
      · exact fun isWaiting => (inv.quiet swept send).2 (of_deliver_waiting isWaiting).1

end Step

/-- In every run in which no call is between its check and its insertion when the messages are
failed: once they have been, no message is stored and no send waits or is about to insert, in this
and in every later state; a send that waits when they are failed completes with `peer-unavailable`;
and one that starts once the session is closing is rejected with it. -/
theorem closing_strands_nothing {state : ClosingSession}
    (reached : (system.restrict Settled).Reachable state) :
    (state.swept = true →
      (∀ id stored, state.dispatch.contents id = some stored → stored.item.isTracked = false) ∧
      ∀ send, state.sends send ≠ .checked ∧ state.sends send ≠ .waiting) ∧
    (∀ sweep order next, (system.restrict Settled).Step state (.sweep sweep order) next →
      ∀ send, state.sends send = .waiting →
        next.sends send = .completed (.error (.new .peerUnavailable))) ∧
    (∀ send next, (system.restrict Settled).Step state (.start send) next →
      state.closing = true →
        next.sends send = .rejected (.new .peerUnavailable)) := by
  have inv : state.Invariant := by
    apply Machine.System.Reachable.invariant _ _ reached
    · exact fun _ initial => initial_invariant initial
    · exact fun _ _ _ inv taken => step_invariant inv taken
  refine ⟨fun swept => ⟨?_, inv.quiet swept⟩, ?_, ?_⟩
  · intro id stored present
    cases item_eq : stored.item with
    | ack | error => rfl
    | tracked outbound =>
      exact absurd (inv.stored id outbound ⟨stored, present, item_eq⟩)
        (inv.quiet swept outbound.ackTx).2
  · intro sweep order next taken send
    exact sweep_completes inv.toMatched taken.1.2
  · rintro send next ⟨⟨_, rfl⟩, _⟩ closing
    change Function.update _ _ _ _ = _
    rw [Function.update_self, closing]
    rfl

/-- A message is inserted, then the peer is torn down: its send completes at once. -/
theorem closing_strands_nothing_waiting :
    ∃ state next : ClosingSession, ∃ order, (system.restrict Settled).Reachable state ∧
      state.sends 0 = .waiting ∧
      (system.restrict Settled).Step state (.sweep .teardown order) next ∧
      next.sends 0 = .completed (.error (.new .peerUnavailable)) := by
  have start : (system.restrict Settled).Reachable
      ⟨RetainedStore.new ⟨1, 1, 1, 1⟩ 0, false, false, fun _ => .idle⟩ := .start ⟨_, _, rfl⟩
  have checked := start.take (.start 0) ⟨⟨rfl, rfl⟩, trivial⟩
  have inserted := checked.take (.insert 0 ⟨7, 1, 2, a3MessageTypeBase, 0, []⟩ 10 0) ⟨⟨rfl, _, _,
    rfl, rfl⟩, trivial⟩
  have flagged := inserted.take .beginClose ⟨rfl, trivial⟩
  obtain ⟨state, reached, closing, sends⟩ : ∃ state, (system.restrict Settled).Reachable state ∧
      state.closing = true ∧ state.sends = Function.update (Function.update (fun _ => .idle) 0
        (checkClosing false)) 0 .waiting := ⟨_, flagged, rfl, rfl⟩
  have waiting : state.sends 0 = .waiting := by
    rw [sends]
    rfl
  have settled : ∀ send, state.sends send ≠ .checked := by
    intro send
    rw [sends, Function.update_apply]
    split
    · nofun
    · rename_i other
      rw [Function.update_of_ne other]
      nofun
  have swept : (system.restrict Settled).Step state
      (.sweep .teardown state.dispatch.tracked.values) _ :=
    ⟨⟨closing, _, _, ⟨List.Perm.refl _, rfl⟩, rfl⟩, settled⟩
  exact ⟨state, _, _, reached, waiting, swept,
    (closing_strands_nothing reached).2.1 _ _ _ swept 0 waiting⟩

/-- A send has passed its check and reads the configuration while the peer is torn down.  Its
message is inserted after the sweep: it stays until it expires, although the session is closed and
can no longer dial. -/
theorem send_stranded_after_sweep :
    ∃ state, system.Reachable state ∧ state.swept = true ∧ state.closing = true ∧
      state.sends 0 = .waiting ∧
      (state.dispatch.contents ⟨.a3, 0⟩).map Entry.item =
        some (.tracked ⟨⟨7, 1, 2, a3MessageTypeBase, 0, []⟩, 0⟩) ∧
      (state.dispatch.expireDue 9).1 = [] ∧
      (state.dispatch.expireDue 10).1 = [⟨7, 0, .error (.new .sendTimeout)⟩] := by
  have start : system.Reachable
      ⟨RetainedStore.new ⟨1, 1, 1, 1⟩ 0, false, false, fun _ => .idle⟩ := .start ⟨_, _, rfl⟩
  have checked := start.take (.start 0) ⟨rfl, rfl⟩
  have flagged := checked.take .beginClose rfl
  have swept := flagged.take (.sweep .teardown []) ⟨rfl, _, _, ⟨List.Perm.refl _, rfl⟩, rfl⟩
  have inserted := swept.take (.insert 0 ⟨7, 1, 2, a3MessageTypeBase, 0, []⟩ 10 0) ⟨rfl, _, _, rfl,
    rfl⟩
  exact ⟨_, inserted, rfl, rfl, rfl, rfl, rfl, rfl⟩

end ClosingSession

end AureliaPeering.Session
