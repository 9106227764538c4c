import AureliaPeering.Session.Epochs

/-!
An inbound hello without `RECONNECT` while no primary callis is active.

The guard of the accepting side lets such a hello through to the session only while the session
is inactive, and an inactive session fails nothing.  So the hello fails no tracked message, and it
leaves the history of an active session as it is.
-/

namespace AureliaPeering.Session

open Collections Store

/-- The accepted inbound hello without `RECONNECT`, no primary callis being active. -/
def freshHello (order : List SlotId) : HelloCall := .inbound false .primary false (.ok ()) order

theorem apply_freshHello (session : PeerSession) (order : List SlotId) :
    (freshHello order).apply session = { session with
      active := true
      dedupe := if session.active then session.dedupe else DedupeState.new } := by
  cases active : session.active <;>
  simp [freshHello, HelloCall.apply, acceptInboundPrimary, PeerSession.acceptHello, active,
    PeerSession.setActive, PeerSession.clearDedupe, DedupeState.clear]

namespace Ledger

/-- Every begin that is undecided or stands for an id of the history came at `count` or later. -/
structure Since (count : Nat) (ledger : Ledger) : Prop where
  begun : count ≤ ledger.begins
  undecided : ∀ owner ∈ ledger.undecided, count ≤ owner.number
  recorded : ∀ peerMsgId ∈ ledger.session.dedupe.set,
    ∃ owner ∈ ledger.accepted, owner.peerMsgId = peerMsgId ∧ count ≤ owner.number

variable {ledger next : Ledger} {owner : Owner} {call : Call} {count : Nat}
  {dedupe : DedupeState} {accepted : Bool}
variable (since : ledger.Since count)

include since

theorem begin_since (peerMsgId : PeerMessageId) : (ledger.begin peerMsgId).Since count := by
  refine ⟨Nat.le_succ_of_le since.begun, fun owner membership => ?_, ?_⟩
  · simp only [begin] at membership
    split at membership
    · rcases List.mem_append.mp membership with old | here
      · exact since.undecided owner old
      · rw [List.mem_singleton.mp here]
        exact since.begun
    · exact since.undecided owner membership
  · have same : (ledger.begin peerMsgId).session.dedupe.set = ledger.session.dedupe.set := by
      rcases ledger.session.dedupe.dedupeBegin_cases peerMsgId ledger.begins with
        ⟨_, taken⟩ | ⟨_, _, _, taken⟩ | ⟨_, _, taken⟩ <;>
      simp only [begin, taken]
    rw [same]
    exact since.recorded

theorem decide_since (listed : owner ∈ ledger.undecided)
    (set_sub : ∀ peerMsgId ∈ dedupe.set, peerMsgId ∈ ledger.session.dedupe.set ∨
      (accepted = true ∧ peerMsgId = owner.peerMsgId)) :
    (ledger.decide owner dedupe accepted).Since count := by
  refine ⟨since.begun, fun other membership => since.undecided other
    (List.mem_of_mem_erase membership), fun peerMsgId membership => ?_⟩
  rcases set_sub peerMsgId membership with old | ⟨completed, rfl⟩
  · obtain ⟨holder, known, sent⟩ := since.recorded peerMsgId old
    refine ⟨holder, ?_, sent⟩
    simp only [decide]
    split
    · exact List.mem_append_left _ known
    · exact known
  · exact ⟨owner, by simp [decide, completed], rfl, since.undecided owner listed⟩

theorem hello_since (call : HelloCall) : (ledger.hello call).Since count := by
  have dedupe_eq := call.apply_dedupe ledger.session
  simp only [hello]
  split_ifs at dedupe_eq ⊢ with cleared
  · exact ⟨since.begun, since.undecided, by simp [dedupe_eq]⟩
  · exact ⟨since.begun, since.undecided, by simpa [dedupe_eq] using since.recorded⟩

theorem step_since (taken : ledger.step call = some next) : next.Since count := by
  cases call with
  | begin peerMsgId =>
    cases taken
    exact begin_since since peerMsgId
  | complete owner result sendQueueSize =>
    simp only [step, Option.ite_none_right_eq_some, Option.some.injEq] at taken
    obtain ⟨listed, rfl⟩ := taken
    exact decide_since since listed (set_dedupeComplete _ _ _ result)
  | abandon owner =>
    simp only [step, Option.ite_none_right_eq_some, Option.some.injEq] at taken
    obtain ⟨listed, rfl⟩ := taken
    exact decide_since since listed fun _ membership => .inl membership
  | hello call =>
    cases taken
    exact hello_since since call

omit since

theorem freshHello_since (empty : ledger.session.active = false ∨ ledger.session.dedupe.set = ∅)
    (decided : ledger.undecided = []) (order : List SlotId) :
    (ledger.hello (freshHello order)).Since ledger.begins := by
  have vacant : ((freshHello order).apply ledger.session).dedupe.set = ∅ := by
    rw [apply_freshHello]
    rcases empty with inactive | unknown
    · simp [inactive, DedupeState.new]
    · cases active : ledger.session.active <;> simp [unknown, DedupeState.new]
  simp only [hello]
  split_ifs <;> exact ⟨le_rfl, by simp [decided], by simp [vacant]⟩

def greeted : Ledger :=
  (start (PeerSession.new (RetainedStore.new ⟨1, 1, 1, 1⟩ 0))).hello (freshHello [])

end Ledger

/-- An active session that has accepted message 0 of the peer and tracks its own message 7. -/
def trackingSession : PeerSession where
  dedupe := ⟨{0}, [0], ∅⟩
  dispatch :=
    match (RetainedStore.new ⟨1, 1, 1, 1⟩ 0).insertTracked
        ⟨⟨7, 1, 2, a3MessageTypeBase, 0, []⟩, 0⟩ 10 0 with
    | .ok (_, store) => store
    | .error _ => RetainedStore.new ⟨1, 1, 1, 1⟩ 0
  active := true
  closing := false

end AureliaPeering.Session
