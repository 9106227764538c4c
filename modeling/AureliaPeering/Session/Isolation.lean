import AureliaPeering.Session.Epochs

/-!
How far a late completion reaches.

The dedupe state carries no session tag, so the completion of a begin from before a clear acts on
whatever entry its id has at that time.  It reaches no other id.
-/

namespace AureliaPeering.Session

open Option

def Call.owner : Call → Option Owner
  | .complete owner _ _ | .abandon owner => some owner
  | .begin _ | .hello _ => none

/-- The decisions a call sends to waiting duplicates. -/
def Call.resolutions (state : DedupeState) : Call → List Resolution
  | .complete owner result sendQueueSize =>
    (state.dedupeComplete sendQueueSize owner.peerMsgId result).1
  | .abandon owner => (state.dedupeAbandon owner.peerMsgId).1
  | .begin _ | .hello _ => []

/-- Every waiting duplicate has its own channel. -/
structure DedupeState.Separate (state : DedupeState) (created : Nat) : Prop where
  bounded : ∀ peerMsgId, ∀ sender ∈ state.waiters peerMsgId, sender < created
  single : ∀ first second sender, sender ∈ state.waiters first → sender ∈ state.waiters second →
    first = second

namespace DedupeState
variable {next state : DedupeState} {created : Nat}

theorem new_separate (created : Nat) : new.Separate created := by
  constructor <;> simp [waiters]

theorem Separate.of_joined (peerMsgId : PeerMessageId)
    (separate : state.Separate created)
    (origin : ∀ other, ∀ sender ∈ next.waiters other,
      sender ∈ state.waiters other ∨ (sender = created ∧ other = peerMsgId)) :
    next.Separate (created + 1) := by
  refine ⟨fun other sender waiting => ?_, fun first second sender at_first at_second => ?_⟩
  · rcases origin other sender waiting with old | ⟨rfl, _⟩
    · exact Nat.lt_succ_of_lt (separate.bounded other sender old)
    · exact Nat.lt_succ_self _
  · rcases origin first sender at_first with first_old | ⟨rfl, rfl⟩ <;>
    rcases origin second sender at_second with second_old | ⟨fresh, rfl⟩
    · exact separate.single first second sender first_old second_old
    · exact absurd (fresh ▸ separate.bounded first sender first_old) (Nat.lt_irrefl created)
    · exact absurd (separate.bounded second _ second_old) (Nat.lt_irrefl _)
    · rfl

theorem Separate.of_subset (separate : state.Separate created)
    (origin : ∀ other, ∀ sender ∈ next.waiters other, sender ∈ state.waiters other) :
    next.Separate created where
  bounded other sender waiting := separate.bounded other sender (origin other sender waiting)
  single first second sender at_first at_second :=
    separate.single first second sender (origin first sender at_first)
      (origin second sender at_second)

theorem dedupeBegin_separate (separate : state.Separate created) (peerMsgId : PeerMessageId) :
    (state.dedupeBegin peerMsgId created).2.Separate (created + 1) := by
  refine separate.of_joined peerMsgId fun other sender waiting => ?_
  by_cases same : other = peerMsgId
  · subst same
    rcases state.dedupeBegin_cases other created with
      ⟨_, taken⟩ | ⟨waiters, _, found, taken⟩ | ⟨_, _, taken⟩ <;>
    rw [taken] at waiting
    · exact .inl waiting
    · simpa [DedupeState.waiters, found] using waiting
    · simp [DedupeState.waiters] at waiting
  · rcases state.dedupeBegin_cases peerMsgId created with
      ⟨_, taken⟩ | ⟨_, _, _, taken⟩ | ⟨_, _, taken⟩ <;>
    rw [taken] at waiting
    · exact .inl waiting
    · exact .inl (by simpa [DedupeState.waiters, same] using waiting)
    · exact .inl (by simpa [DedupeState.waiters, same] using waiting)

theorem separate_of_removed {peerMsgId : PeerMessageId}
    (separate : state.Separate created)
    (removed : ∀ other, next.pending.lookup other =
      if other = peerMsgId then none else state.pending.lookup other) :
    next.Separate created := by
  refine separate.of_subset fun other sender waiting => ?_
  by_cases same : other = peerMsgId
  · simp [waiters, removed, same] at waiting
  · have kept : next.waiters other = state.waiters other :=
      by rw [waiters, waiters, removed, if_neg same]
    exact kept ▸ waiting

end DedupeState

namespace Ledger
variable {ledger next : Ledger} {call : Call} {owner : Owner}

theorem step_separate (separate : ledger.session.dedupe.Separate ledger.begins)
    (taken : ledger.step call = some next) : next.session.dedupe.Separate next.begins := by
  cases call with
  | begin peerMsgId =>
    cases taken
    exact DedupeState.dedupeBegin_separate separate peerMsgId
  | complete owner result sendQueueSize =>
    simp only [step, ite_none_right_eq_some, some.injEq] at taken
    obtain ⟨_, rfl⟩ := taken
    exact DedupeState.separate_of_removed separate fun other =>
      ledger.session.dedupe.dedupeComplete_lookup sendQueueSize owner.peerMsgId other result
  | abandon owner =>
    simp only [step, ite_none_right_eq_some, some.injEq] at taken
    obtain ⟨_, rfl⟩ := taken
    exact DedupeState.separate_of_removed separate fun other =>
      ledger.session.dedupe.removePending_lookup owner.peerMsgId other
  | hello call =>
    cases taken
    have dedupe_eq := call.apply_dedupe ledger.session
    simp only [hello]
    split
    · rename_i cleared
      simp only [dedupe_eq, cleared, if_pos]
      exact DedupeState.new_separate _
    · rename_i kept
      simp only [dedupe_eq, kept, Bool.false_eq_true, if_false]
      exact separate

theorem reachable_separate (reached : system.Reachable ledger) :
    ledger.session.dedupe.Separate ledger.begins :=
  @Machine.System.Reachable.invariant _ _ system
    (fun state => state.session.dedupe.Separate state.begins)
    (by rintro _ ⟨_, rfl⟩; exact DedupeState.new_separate _)
    (fun _ _ _ separate taken => step_separate separate taken) _ reached

/-- Deciding `owner` changes the entry of its own id only, but for the eviction of the oldest ids
from a full history. -/
structure Confined (ledger next : Ledger) (call : Call) (owner : Owner) : Prop where
  pending : ∀ other, other ≠ owner.peerMsgId →
    next.session.dedupe.pending.lookup other = ledger.session.dedupe.pending.lookup other
  resolved : ∀ resolution ∈ call.resolutions ledger.session.dedupe, ∀ other,
    other ≠ owner.peerMsgId → resolution.1 ∉ ledger.session.dedupe.waiters other
  recorded : ∀ other, other ≠ owner.peerMsgId → other ∈ next.session.dedupe.set →
    other ∈ ledger.session.dedupe.set
  oldest : next.session.dedupe.order <:+ ledger.session.dedupe.order ∨
    next.session.dedupe.order <:+ ledger.session.dedupe.order ++ [owner.peerMsgId]
  evicted : ∀ other ∈ ledger.session.dedupe.set, other ∈ next.session.dedupe.set ∨
    ∃ sendQueueSize, call = .complete owner (.ok ()) sendQueueSize ∧
      dedupeLimit sendQueueSize ≤ ledger.session.dedupe.order.length

variable (separate : ledger.session.dedupe.Separate ledger.begins)

include separate

theorem complete_confined (result : Except AureliaError Unit) (sendQueueSize : Nat)
    (accepted : Bool) :
    Confined ledger (ledger.decide owner
      (ledger.session.dedupe.dedupeComplete sendQueueSize owner.peerMsgId result).2 accepted)
      (.complete owner result sendQueueSize) owner where
  pending other different := by
    simp only [decide]
    rw [DedupeState.dedupeComplete_lookup, if_neg different]
  resolved resolution listed other different waiting := by
    obtain ⟨sender, at_owner, rfl⟩ := List.mem_map.mp listed
    exact different (separate.single other owner.peerMsgId sender waiting at_owner)
  recorded other different membership := by
    have origin := DedupeState.dedupeComplete_set_subset _ _ _ _ membership
    exact (Finset.mem_insert.mp origin).resolve_left different
  oldest := by
    cases result with
    | error => exact .inl List.suffix_rfl
    | ok =>
      simp only [decide, DedupeState.dedupeComplete, DedupeState.record]
      split
      · exact .inl List.suffix_rfl
      · exact .inr evict_order_isSuffix
  evicted other membership := by
    cases result with
    | error => exact .inl membership
    | ok =>
      by_cases room : ledger.session.dedupe.order.length < dedupeLimit sendQueueSize
      · exact .inl ((ledger.session.dedupe.removePending owner.peerMsgId).subset_record_set room
          owner.peerMsgId membership)
      · exact .inr ⟨sendQueueSize, rfl, Nat.not_lt.mp room⟩

theorem abandon_confined :
    Confined ledger
      (ledger.decide owner (ledger.session.dedupe.dedupeAbandon owner.peerMsgId).2 false)
      (.abandon owner) owner where
  pending other different := by
    simp only [decide]
    exact (DedupeState.removePending_lookup ..).trans (if_neg different)
  resolved resolution listed other different waiting := by
    obtain ⟨sender, at_owner, rfl⟩ := List.mem_map.mp listed
    exact different (separate.single other owner.peerMsgId sender waiting at_owner)
  recorded _ _ membership := membership
  oldest := .inl List.suffix_rfl
  evicted _ membership := .inl membership

theorem step_confined (decides : call.owner = some owner) (taken : ledger.step call = some next) :
    Confined ledger next call owner := by
  cases call with
  | begin | hello => cases decides
  | complete decided result sendQueueSize =>
    cases decides
    simp only [step, ite_none_right_eq_some, some.injEq] at taken
    obtain ⟨_, rfl⟩ := taken
    exact complete_confined separate result sendQueueSize _
  | abandon decided =>
    cases decides
    simp only [step, ite_none_right_eq_some, some.injEq] at taken
    obtain ⟨_, rfl⟩ := taken
    exact abandon_confined separate

omit separate

/-- A begin is acknowledged as a duplicate only for a successful completion of its id since the
last clear, by a begin from after that clear unless a begin of the id crossed it.  No completion
or abandon reaches the entry of another id, and the pending entry of an id that no begin crossed
stands exactly while the one begin that created it is undecided. -/
theorem reachable_entries_follow_ids {ledger : Ledger} (reached : system.Reachable ledger) :
    (∀ peerMsgId sender,
      (ledger.session.dedupe.dedupeBegin peerMsgId sender).1 = .duplicate .ack →
        ∃ owner ∈ ledger.accepted, owner.peerMsgId = peerMsgId ∧
          (owner.epoch = ledger.clears ∨ peerMsgId ∈ ledger.crossed)) ∧
    (∀ call next owner, call.owner = some owner → ledger.step call = some next →
      Confined ledger next call owner) ∧
    (∀ peerMsgId, peerMsgId ∉ ledger.crossed →
      ((ledger.session.dedupe.pending.lookup peerMsgId).isSome ↔
        ∃! owner, ledger.Current peerMsgId owner)) := by
  have inv := reachable_invariant reached
  refine ⟨fun peerMsgId sender answered => ?_, fun call next owner decides taken => ?_,
    fun peerMsgId untouched => ?_⟩
  · rw [DedupeState.dedupeBegin_eq_ack_iff] at answered
    obtain ⟨owner, completed, rfl⟩ := inv.recorded peerMsgId answered
    exact ⟨owner, completed, rfl, inv.tagged owner completed⟩
  · exact step_confined (reachable_separate reached) decides taken
  · rw [inv.pending peerMsgId untouched]
    constructor
    · rintro ⟨owner, current⟩
      exact ⟨owner, current, fun other also => inv.single _ untouched other owner also current⟩
    · rintro ⟨owner, current, _⟩
      exact ⟨owner, current⟩

/-- A session accepts its first callis, begins id 0, learns from a reconnect that the peer
restarted, and then the waiter of the old callis completes its begin. -/
def lateCompletion : List Call :=
  [.hello (.inbound false .primary false (.ok ()) []),
    .begin 0,
    .hello (.outbound false true (.ok ⟨.primary, false, false⟩) []),
    .complete ⟨0, 0, 1⟩ (.ok ()) 16]

def freshSession : PeerSession := PeerSession.new (Store.RetainedStore.new ⟨16, 2, 4, 4⟩ 0)

theorem reachable_freshSession : system.Reachable (start freshSession) :=
  .start ⟨_, rfl⟩

/-- After the late completion the first message 0 of the restarted peer would be acknowledged as
a duplicate, although no begin of this session was completed. -/
theorem late_completion_answers_next_session :
    ¬ ∀ ledger, system.Reachable ledger → ∀ peerMsgId sender,
      (ledger.session.dedupe.dedupeBegin peerMsgId sender).1 = .duplicate .ack →
        ∃ owner ∈ ledger.accepted, owner.peerMsgId = peerMsgId ∧ owner.epoch = ledger.clears := by
  intro isolated
  obtain ⟨ledger, ran, answered, accepted, clears⟩ :
      ∃ ledger, Machine.exec step (start freshSession) lateCompletion = some ledger ∧
        (ledger.session.dedupe.dedupeBegin 0 1).1 = .duplicate .ack ∧
        ledger.accepted = [⟨0, 0, 1⟩] ∧ ledger.clears = 2 :=
    ⟨_, rfl, by decide, rfl, rfl⟩
  obtain ⟨owner, completed, _, epoch⟩ :=
    isolated ledger (reachable_freshSession.exec (fun _ _ _ taken => taken) lateCompletion ran) 0
      1 answered
  rw [accepted, List.mem_singleton] at completed
  rw [completed, clears] at epoch
  exact absurd epoch (by decide)

/-- After the late completion id 0 is acknowledged for a begin that crossed the clear. -/
theorem reachable_entries_follow_ids_lateCompletion :
    ∃ ledger, Machine.exec step (start freshSession) lateCompletion = some ledger ∧
      ∃ owner ∈ ledger.accepted, owner.peerMsgId = 0 ∧
        (owner.epoch = ledger.clears ∨ 0 ∈ ledger.crossed) := by
  refine ⟨_, rfl, ?_⟩
  exact (reachable_entries_follow_ids
    (reachable_freshSession.exec (fun _ _ _ taken => taken) lateCompletion rfl)).1 0 1 (by decide)

end Ledger

end AureliaPeering.Session
