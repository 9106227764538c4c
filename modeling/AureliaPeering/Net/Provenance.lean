import AureliaPeering.Net.Turns

/-!
Where the answers of an endpoint come from.

`Vouched` traces every waiter, every recorded id and every outcome back to a message that was
heard, and every acknowledgement to a delivery that was accepted, of a sending process that meets
`From`.  What the history records counts only while `Current` holds: a history from before a
handshake speaks of another process.
-/

namespace AureliaPeering.Net

open Collections Store Session List Option

def InboundOutcome.answered : InboundOutcome → Option PeerMessageId
  | .ack peerMsgId | .error peerMsgId _ => some peerMsgId
  | .skip => none

namespace Inbound

/-- A taberna accepted a delivery of the id, sent by a process that meets `From`. -/
def AcceptedFrom (inbound : Inbound) (From : Nat → Prop) (peerMsgId : PeerMessageId) : Prop :=
  ∃ (token : Nat) (delivery : Delivery), inbound.deliveries[token]? = some delivery ∧
    delivery.peerMsgId = peerMsgId ∧ delivery.decision = some .accepted ∧
    From delivery.incarnation

structure Vouched (inbound : Inbound) (From : Nat → Prop) (Heard : PeerMessageId → Prop)
    (Current : Prop) : Prop where
  heard : ∀ waiter ∈ inbound.waiters, Heard waiter.peerMsgId
  owned : ∀ waiter ∈ inbound.waiters, ∀ token, waiter.kind.token = some token →
    ∃ delivery, inbound.deliveries[token]? = some delivery ∧
      delivery.peerMsgId = waiter.peerMsgId ∧ From delivery.incarnation
  activated : ∀ waiter ∈ inbound.waiters, ∀ token, waiter.kind = .blobCallis token →
    inbound.decisionOn token = some .accepted
  joined : ∀ waiter ∈ inbound.waiters, ∀ decisionRx, waiter.kind = .duplicate decisionRx →
    ∃ duplicate, inbound.duplicates[decisionRx]? = some duplicate ∧
      duplicate.peerMsgId = waiter.peerMsgId ∧
      (duplicate.decision = some .ack → inbound.AcceptedFrom From waiter.peerMsgId)
  waiting : ∀ peerMsgId, ∀ sender ∈ inbound.session.dedupe.waiters peerMsgId,
    ∃ duplicate, inbound.duplicates[sender]? = some duplicate ∧ duplicate.peerMsgId = peerMsgId
  recorded : Current → ∀ peerMsgId ∈ inbound.session.dedupe.set,
    inbound.AcceptedFrom From peerMsgId
  acks : ∀ peerMsgId, .ack peerMsgId ∈ inbound.outcomes → inbound.AcceptedFrom From peerMsgId
  answers : ∀ outcome ∈ inbound.outcomes, ∀ peerMsgId, outcome.answered = some peerMsgId →
    Heard peerMsgId

/-- Deliveries stay at their places, and none that was accepted is decided anew. -/
def Grows (inbound next : Inbound) : Prop :=
  ∀ (token : Nat) (delivery : Delivery), inbound.deliveries[token]? = some delivery →
    ∃ later, next.deliveries[token]? = some later ∧ later.peerMsgId = delivery.peerMsgId ∧
      later.incarnation = delivery.incarnation ∧
      (delivery.decision = some .accepted → later.decision = some .accepted)

variable {inbound next : Inbound} {From : Nat → Prop} {Heard : PeerMessageId → Prop}
  {Current : Prop}
variable {peerMsgId : PeerMessageId} {token : AcceptReceiver} {waiter : InboundWaiter}
  {dedupe : DedupeState} {decision : DedupeDecision} {index sendQueueSize : Nat}

theorem Grows.of_eq (deliveries : next.deliveries = inbound.deliveries) : inbound.Grows next :=
  fun _ delivery found => ⟨delivery, deliveries ▸ found, rfl, rfl, id⟩

theorem AcceptedFrom.grows
    (accepted : inbound.AcceptedFrom From peerMsgId) (grows : inbound.Grows next) :
    next.AcceptedFrom From peerMsgId := by
  obtain ⟨token, delivery, found, same, decided, sent⟩ := accepted
  obtain ⟨later, at_token, id_eq, incarnation_eq, kept⟩ := grows token delivery found
  exact ⟨token, later, at_token, id_eq.trans same, kept decided, incarnation_eq ▸ sent⟩

theorem AcceptedFrom.mono {Wider : Nat → Prop}
    (accepted : inbound.AcceptedFrom From peerMsgId)
    (wider : ∀ incarnation, From incarnation → Wider incarnation) :
    inbound.AcceptedFrom Wider peerMsgId := by
  obtain ⟨token, delivery, found, same, decided, sent⟩ := accepted
  exact ⟨token, delivery, found, same, decided, wider _ sent⟩

theorem decisionOn_grows (grows : inbound.Grows next)
    (accepted : inbound.decisionOn token = some .accepted) :
    next.decisionOn token = some .accepted := by
  obtain ⟨delivery, found, decided⟩ := bind_eq_some_iff.mp accepted
  obtain ⟨later, at_token, _, _, kept⟩ := grows token delivery found
  exact bind_eq_some_iff.mpr ⟨later, at_token, kept decided⟩

section Vouched

variable (vouched : inbound.Vouched From Heard Current)

include vouched

theorem Vouched.accepted_of_owner
    (listed : waiter ∈ inbound.waiters)
    (owner : waiter.kind.token = some token)
    (accepted : inbound.decisionOn token = some .accepted) :
    inbound.AcceptedFrom From waiter.peerMsgId := by
  obtain ⟨delivery, found, same, sent⟩ := vouched.owned waiter listed token owner
  obtain ⟨_, at_token, decided⟩ := bind_eq_some_iff.mp accepted
  cases found.symm.trans at_token
  exact ⟨token, delivery, found, same, decided, sent⟩

theorem Vouched.mono {Wider : Nat → Prop} {HeardMore : PeerMessageId → Prop}
    (wider : ∀ incarnation, From incarnation → Wider incarnation)
    (more : ∀ peerMsgId, Heard peerMsgId → HeardMore peerMsgId) :
    inbound.Vouched Wider HeardMore Current where
  heard waiter listed := more _ (vouched.heard waiter listed)
  owned waiter listed token owner := by
    obtain ⟨delivery, found, same, sent⟩ := vouched.owned waiter listed token owner
    exact ⟨delivery, found, same, wider _ sent⟩
  activated := vouched.activated
  joined waiter listed decisionRx kind := by
    obtain ⟨duplicate, found, same, acked⟩ := vouched.joined waiter listed decisionRx kind
    exact ⟨duplicate, found, same, fun decided => (acked decided).mono wider⟩
  waiting := vouched.waiting
  recorded current peerMsgId listed := (vouched.recorded current peerMsgId listed).mono wider
  acks peerMsgId listed := (vouched.acks peerMsgId listed).mono wider
  answers outcome listed peerMsgId answered := more _ (vouched.answers outcome listed _ answered)

theorem Vouched.carry (grows : inbound.Grows next)
    (alike : next.session.dedupe.Alike inbound.session.dedupe)
    (waiters : next.waiters ⊆ inbound.waiters) (duplicates : next.duplicates = inbound.duplicates)
    (outcomes : next.outcomes ⊆ inbound.outcomes) : next.Vouched From Heard Current where
  heard waiter listed := vouched.heard waiter (waiters listed)
  owned waiter listed token owner := by
    obtain ⟨delivery, found, same, sent⟩ := vouched.owned waiter (waiters listed) token owner
    obtain ⟨later, at_token, id_eq, incarnation_eq, _⟩ := grows token delivery found
    exact ⟨later, at_token, id_eq.trans same, incarnation_eq ▸ sent⟩
  activated waiter listed token kind :=
    decisionOn_grows grows (vouched.activated waiter (waiters listed) token kind)
  joined waiter listed decisionRx kind := by
    obtain ⟨duplicate, found, same, acked⟩ :=
      vouched.joined waiter (waiters listed) decisionRx kind
    exact ⟨duplicate, duplicates ▸ found, same, fun decided => (acked decided).grows grows⟩
  waiting peerMsgId sender listed := by
    rw [DedupeState.waiters, alike.pending] at listed
    rw [duplicates]
    exact vouched.waiting peerMsgId sender listed
  recorded current peerMsgId listed :=
    (vouched.recorded current peerMsgId (alike.set ▸ listed)).grows grows
  acks peerMsgId listed := (vouched.acks peerMsgId (outcomes listed)).grows grows
  answers outcome listed := vouched.answers outcome (outcomes listed)

theorem Vouched.removeWaiter (index : Nat) :
    (inbound.removeWaiter index).Vouched From Heard Current :=
  vouched.carry (.of_eq rfl) (.refl _) (fun _ => mem_of_mem_eraseIdx) rfl
    (List.Subset.refl _)

theorem Vouched.insertWaiter
    (heard : Heard waiter.peerMsgId)
    (owned : ∀ token, waiter.kind.token = some token →
      ∃ delivery, inbound.deliveries[token]? = some delivery ∧
        delivery.peerMsgId = waiter.peerMsgId ∧ From delivery.incarnation)
    (activated : ∀ token, waiter.kind = .blobCallis token →
      inbound.decisionOn token = some .accepted)
    (joined : ∀ decisionRx, waiter.kind = .duplicate decisionRx →
      ∃ duplicate, inbound.duplicates[decisionRx]? = some duplicate ∧
        duplicate.peerMsgId = waiter.peerMsgId ∧
        (duplicate.decision = some .ack → inbound.AcceptedFrom From waiter.peerMsgId)) :
    (inbound.insertWaiter waiter).Vouched From Heard Current := by
  have split : ∀ other ∈ (inbound.insertWaiter waiter).waiters,
      other ∈ inbound.waiters ∨ other = waiter := by
    intro other listed
    rcases mem_append.mp listed with old | here
    · exact .inl (mem_of_mem_filter old)
    · exact .inr (mem_singleton.mp here)
  refine ⟨?_, ?_, ?_, ?_, vouched.waiting, vouched.recorded, vouched.acks, vouched.answers⟩
  · intro other listed
    rcases split other listed with old | rfl
    · exact vouched.heard other old
    · exact heard
  · intro other listed
    rcases split other listed with old | rfl
    · exact vouched.owned other old
    · exact owned
  · intro other listed
    rcases split other listed with old | rfl
    · exact vouched.activated other old
    · exact activated
  · intro other listed
    rcases split other listed with old | rfl
    · exact vouched.joined other old
    · exact joined

theorem Vouched.pushOutcome
    {outcome : InboundOutcome}
    (acks : ∀ peerMsgId, outcome = .ack peerMsgId → inbound.AcceptedFrom From peerMsgId)
    (answers : ∀ peerMsgId, outcome.answered = some peerMsgId → Heard peerMsgId) :
    (inbound.pushOutcome outcome).Vouched From Heard Current := by
  refine ⟨vouched.heard, vouched.owned, vouched.activated, vouched.joined, vouched.waiting,
    vouched.recorded, ?_, ?_⟩
  · intro peerMsgId listed
    rcases mem_append.mp listed with old | here
    · exact vouched.acks peerMsgId old
    · exact acks peerMsgId (mem_singleton.mp here).symm
  · intro other listed
    rcases mem_append.mp listed with old | here
    · exact vouched.answers other old
    · rw [mem_singleton.mp here]
      exact answers

theorem Vouched.setDedupe {Next : Prop}
    (fewer : ∀ peerMsgId, dedupe.waiters peerMsgId ⊆ inbound.session.dedupe.waiters peerMsgId)
    (recorded : Next → ∀ peerMsgId ∈ dedupe.set, inbound.AcceptedFrom From peerMsgId) :
    (inbound.setDedupe dedupe).Vouched From Heard Next :=
  ⟨vouched.heard, vouched.owned, vouched.activated, vouched.joined,
    fun peerMsgId sender listed => vouched.waiting peerMsgId sender (fewer peerMsgId listed),
    recorded, vouched.acks, vouched.answers⟩

end Vouched

theorem resolve_duplicate {senders : List DecisionSender}
    {index : DecisionSender} {duplicate : Duplicate}
    (found : inbound.duplicates[index]? = some duplicate) :
    (inbound.resolve (senders.map fun sender => (sender, decision))).duplicates[index]? =
      some { duplicate with
        decision := if index ∈ senders then some decision else duplicate.decision } := by
  simp only [resolve, getElem?_mapIdx, found, map_some, resolution_map]
  split_ifs <;> rfl

theorem Vouched.resolve (vouched : inbound.Vouched From Heard Current)
    (peerMsgId : PeerMessageId)
    (acks : decision = .ack → inbound.AcceptedFrom From peerMsgId) :
    (inbound.resolve ((inbound.session.dedupe.waiters peerMsgId).map fun sender =>
      (sender, decision))).Vouched From Heard Current := by
  refine ⟨vouched.heard, vouched.owned, vouched.activated, ?_, ?_, vouched.recorded, vouched.acks,
    vouched.answers⟩
  · intro waiter listed decisionRx kind
    obtain ⟨duplicate, found, same, acked⟩ := vouched.joined waiter listed decisionRx kind
    refine ⟨_, resolve_duplicate found, same, ?_⟩
    dsimp only
    split_ifs with told
    · -- The channel belongs to the waiter's id and to the decided one, so the two are the same.
      intro decided
      obtain ⟨other, at_sender, id_eq⟩ := vouched.waiting peerMsgId decisionRx told
      cases found.symm.trans at_sender
      exact same ▸ id_eq ▸ acks (some.inj decided)
    · exact acked
  · intro other sender listed
    obtain ⟨duplicate, found, same⟩ := vouched.waiting other sender listed
    exact ⟨_, resolve_duplicate found, same⟩

theorem waiters_subset_of_lookup {state : DedupeState}
    (lookup : ∀ other, dedupe.pending.lookup other =
      if other = peerMsgId then none else state.pending.lookup other) (other : PeerMessageId) :
    dedupe.waiters other ⊆ state.waiters other := by
  rw [DedupeState.waiters, lookup]
  split_ifs
  · exact nil_subset _
  · exact List.Subset.refl _

section Vouched

variable (vouched : inbound.Vouched From Heard Current)

include vouched

theorem Vouched.complete (sendQueueSize : Nat)
    {result : Except AureliaError Unit}
    (accepted : result = .ok () → inbound.AcceptedFrom From peerMsgId) :
    (inbound.complete sendQueueSize peerMsgId result).Vouched From Heard Current := by
  have told : (inbound.resolve ((inbound.session.dedupe.waiters peerMsgId).map fun sender =>
      (sender, DedupeState.decisionOf result))).Vouched From Heard Current := by
    refine vouched.resolve peerMsgId fun acked => accepted ?_
    cases result with
    | ok => rfl
    | error => cases acked
  refine told.setDedupe (waiters_subset_of_lookup
    (DedupeState.dedupeComplete_lookup _ sendQueueSize peerMsgId · result)) ?_
  intro current other listed
  cases result with
  | ok =>
    have within := DedupeState.dedupeComplete_set_subset inbound.session.dedupe sendQueueSize
      peerMsgId (.ok ())
    rcases Finset.mem_insert.mp (within listed) with rfl | old
    · exact accepted rfl
    · exact vouched.recorded current other old
  | error => exact vouched.recorded current other listed

theorem Vouched.abandon
    (peerMsgId : PeerMessageId) : (inbound.abandon peerMsgId).Vouched From Heard Current := by
  have told : (inbound.resolve ((inbound.session.dedupe.waiters peerMsgId).map fun sender =>
      (sender, .abandoned))).Vouched From Heard Current := vouched.resolve peerMsgId (by simp)
  exact told.setDedupe
    (waiters_subset_of_lookup (DedupeState.removePending_lookup _ peerMsgId ·)) vouched.recorded

theorem Vouched.finish (sendQueueSize : Nat)
    (result : Except AureliaError Unit) (heard : Heard peerMsgId)
    (accepted : result = .ok () → inbound.AcceptedFrom From peerMsgId) :
    (inbound.finish sendQueueSize peerMsgId result).Vouched From Heard Current := by
  have completed := vouched.complete sendQueueSize accepted
  cases result with
  | ok =>
    refine completed.pushOutcome ?_ ?_
    · rintro other same
      obtain rfl := InboundOutcome.ack.inj same
      exact accepted rfl
    · rintro other same
      exact some.inj same ▸ heard
  | error error =>
    refine completed.pushOutcome ?_ ?_
    · rintro other same
      cases same
    · rintro other same
      exact some.inj same ▸ heard

theorem Vouched.decide
    {decision : AcceptDecision} (decided : inbound.decide token decision = some next) :
    next.Vouched From Heard Current ∧ inbound.Grows next := by
  unfold Inbound.decide at decided
  split at decided
  · rename_i delivery found
    split at decided
    · rename_i undecided
      cases decided
      have grows : inbound.Grows { inbound with
          deliveries := inbound.deliveries.set token
            { delivery with decision := some decision } } := by
        intro index held at_index
        by_cases here : token = index
        · subst here
          cases found.symm.trans at_index
          refine ⟨_, List.getElem?_set_self (List.getElem?_eq_some_iff.mp found).1, rfl, rfl, ?_⟩
          rw [undecided]
          exact fun accepted => absurd accepted (by simp)
        · exact ⟨held, (getElem?_set_ne here).trans at_index, rfl, rfl, id⟩
      exact ⟨vouched.carry grows (.refl _) (List.Subset.refl _) rfl (List.Subset.refl _), grows⟩
    · cases decided
  · cases decided

/-- A message of a process that meets `From` is received. -/
theorem Vouched.received {callis : CallisId}
    {incarnation : Nat}
    (received : inbound.Received callis incarnation peerMsgId next) (sent : From incarnation)
    (heard : Heard peerMsgId) (current : Current) :
    next.Vouched From Heard Current ∧ inbound.Grows next := by
  cases received with
  | answered answered =>
    have grows : inbound.Grows next := .of_eq answered.deliveries
    refine ⟨?_, grows⟩
    have quiet : ({ next with outcomes := inbound.outcomes } : Inbound).Vouched From Heard
        Current :=
      vouched.carry (.of_eq answered.deliveries) answered.alike
        (fun _ listed => answered.waiters ▸ listed) answered.duplicates (List.Subset.refl _)
    refine ⟨quiet.heard, quiet.owned, quiet.activated, quiet.joined, quiet.waiting,
      quiet.recorded, ?_, ?_⟩
    · intro other listed
      rcases answered.outcomes _ listed with old | same | ⟨_, same⟩ | ⟨same, known⟩
      · exact (vouched.acks other old).grows grows
      · cases same
      · cases same
      · obtain rfl := InboundOutcome.ack.inj same
        exact (vouched.recorded current other known).grows grows
    · intro outcome listed other answers
      rcases answered.outcomes outcome listed with old | rfl | ⟨_, rfl⟩ | ⟨rfl, _⟩
      · exact vouched.answers outcome old other answers
      · cases answers
      · exact some.inj answers ▸ heard
      · exact some.inj answers ▸ heard
  | @joined waiting _ found =>
    have grows : inbound.Grows (inbound.joined callis peerMsgId waiting) := .of_eq rfl
    refine ⟨?_, grows⟩
    have kept : ∀ {index : Nat} {duplicate : Duplicate},
        inbound.duplicates[index]? = some duplicate →
        (inbound.duplicates ++ [⟨peerMsgId, none⟩])[index]? = some duplicate :=
      fun listed => List.getElem?_append_left (List.getElem?_eq_some_iff.mp listed).1 ▸ listed
    have new : (inbound.duplicates ++ [⟨peerMsgId, none⟩])[inbound.duplicates.length]? =
        some ⟨peerMsgId, none⟩ := by simp
    have grown : ((inbound.setDedupe { inbound.session.dedupe with
        pending := AList.insert peerMsgId (waiting ++ [inbound.duplicates.length])
          inbound.session.dedupe.pending }).pushDuplicate peerMsgId).Vouched From Heard
        Current := by
      refine ⟨vouched.heard, vouched.owned, vouched.activated, ?_, ?_, vouched.recorded,
        vouched.acks, vouched.answers⟩
      · intro waiter listed decisionRx kind
        obtain ⟨duplicate, at_index, same, acked⟩ :=
          vouched.joined waiter listed decisionRx kind
        exact ⟨duplicate, kept at_index, same, acked⟩
      · intro other sender listed
        simp only [Inbound.setDedupe, pushDuplicate, DedupeState.waiters,
          HashMap.lookup_insert_eq] at listed
        split at listed
        · rename_i here
          subst here
          rcases mem_append.mp listed with old | fresh
          · obtain ⟨duplicate, at_index, same⟩ := vouched.waiting other sender
              (by rw [DedupeState.waiters, found]; exact old)
            exact ⟨duplicate, kept at_index, same⟩
          · rw [mem_singleton.mp fresh]
            exact ⟨_, new, rfl⟩
        · obtain ⟨duplicate, at_index, same⟩ := vouched.waiting other sender listed
          exact ⟨duplicate, kept at_index, same⟩
    refine grown.insertWaiter heard ?_ ?_ ?_
    · intro token owner
      cases owner
    · intro token kind
      cases kind
    · intro decisionRx kind
      obtain rfl := WaiterKind.duplicate.inj kind
      exact ⟨_, new, rfl, by simp⟩
  | @delivered kind _ vacant fresh =>
    have grows : inbound.Grows (inbound.delivered callis peerMsgId incarnation kind) :=
      fun token delivery found =>
        ⟨delivery, List.getElem?_append_left (List.getElem?_eq_some_iff.mp found).1 ▸ found, rfl,
          rfl, id⟩
    refine ⟨?_, grows⟩
    have begun : (inbound.setDedupe { inbound.session.dedupe with
        pending := AList.insert peerMsgId [] inbound.session.dedupe.pending }).Vouched From Heard
        Current := by
      refine vouched.setDedupe (fun other => ?_) vouched.recorded
      simp only [DedupeState.waiters, HashMap.lookup_insert_eq]
      split_ifs
      · exact nil_subset _
      · exact List.Subset.refl _
    have pushed : ((inbound.setDedupe { inbound.session.dedupe with
        pending := AList.insert peerMsgId [] inbound.session.dedupe.pending }).pushDelivery
          peerMsgId incarnation).Vouched From Heard Current :=
      begun.carry grows (.refl _) (List.Subset.refl _) rfl (List.Subset.refl _)
    refine pushed.insertWaiter heard ?_ ?_ ?_
    · intro token owner
      have at_end : token = inbound.deliveries.length := by
        rcases fresh with rfl | rfl <;> exact (some.inj owner).symm
      exact ⟨⟨peerMsgId, incarnation, none⟩, by simp [at_end, pushDelivery, Inbound.setDedupe],
        rfl, sent⟩
    · intro token same
      rcases fresh with rfl | rfl <;> cases same
    · intro decisionRx same
      rcases fresh with rfl | rfl <;> cases same

theorem Vouched.drained {activation : BlobActivation}
    (found : inbound.waiters[index]? = some waiter)
    (drained : inbound.Drained index waiter activation sendQueueSize next) :
    next.Vouched From Heard Current := by
  have rest := vouched.removeWaiter index
  have listed := mem_of_getElem? found
  have heard := vouched.heard waiter listed
  cases drained with
  | @decided token decision kind decided =>
    have owner : waiter.kind.token = some token := by
      rcases kind with kind | ⟨kind, _⟩ <;> rw [kind] <;> rfl
    refine rest.finish sendQueueSize _ heard fun succeeded => ?_
    cases decision with
    | accepted => exact vouched.accepted_of_owner listed owner decided
    | rejected | closed => cases succeeded
  | @activated token kind =>
    have owner : waiter.kind.token = some token := by
      rcases kind with ⟨kind, _⟩ | kind <;> rw [kind] <;> rfl
    have accepted : inbound.decisionOn token = some .accepted := by
      rcases kind with ⟨_, accepted⟩ | kind
      · exact accepted
      · exact vouched.activated waiter listed token kind
    cases activation with
    | ready =>
      exact rest.finish sendQueueSize (.ok ()) heard fun _ =>
        vouched.accepted_of_owner listed owner accepted
    | failed error =>
      exact rest.finish sendQueueSize (.error error) heard fun failed => by cases failed
    | waiting =>
      refine rest.insertWaiter heard ?_ ?_ ?_
      · intro owned same
        cases same
        exact vouched.owned waiter listed token owner
      · intro owned same
        obtain rfl := WaiterKind.blobCallis.inj same
        exact accepted
      · intro decisionRx same
        cases same
  | @resolved decisionRx decision kind decided =>
    obtain ⟨_, at_index, _, acked⟩ := vouched.joined waiter listed decisionRx kind
    rw [at_index, bind_some] at decided
    refine rest.pushOutcome ?_ ?_
    · intro other same
      cases decision with
      | ack =>
        obtain rfl := InboundOutcome.ack.inj same
        exact acked decided
      | error | abandoned => cases same
    · intro other same
      cases decision with
      | ack | error => exact some.inj same ▸ heard
      | abandoned => cases same
  | closed _ =>
    refine rest.pushOutcome ?_ ?_
    · intro other same
      cases same
    · intro other same
      cases same

theorem Vouched.cancel
    {reason : CancelReason}
    (cancelled : inbound.cancel index reason sendQueueSize = some next) :
    next.Vouched From Heard Current := by
  have rest := vouched.removeWaiter index
  obtain ⟨waiter, _, ⟨_, rfl⟩ | ⟨_, _, rfl | rfl⟩⟩ := cancel_cases cancelled
  · exact rest
  · exact rest.complete sendQueueSize (by simp)
  · exact rest.abandon waiter.peerMsgId

theorem Vouched.drop
    (dropped : inbound.drop index = some next) : next.Vouched From Heard Current := by
  obtain ⟨_, _, rfl⟩ := map_eq_some_iff.mp dropped
  exact vouched.removeWaiter index

end Vouched

end Inbound

end AureliaPeering.Net
