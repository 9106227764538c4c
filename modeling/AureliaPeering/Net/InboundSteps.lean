import AureliaPeering.Net.Inbound

/-!
Everything the inbound operations can do, one inversion for each of them.
-/

namespace AureliaPeering.Net

open Collections Store Session List Option

namespace Inbound

variable {peerMsgId : PeerMessageId} {inbound next : Inbound} {index sendQueueSize : Nat}
  {activation : BlobActivation} {reason : CancelReason}

@[simp]
theorem resolve_nil (inbound : Inbound) : inbound.resolve [] = inbound := by
  have same : inbound.duplicates.mapIdx (fun _ duplicate => duplicate) = inbound.duplicates :=
    mapIdx_eq_iff.mpr fun _ => map_id'.symm
  simp [resolve, resolution, same]

theorem resolution_map (senders : List DecisionSender) (decision : DedupeDecision)
    (index : DecisionSender) :
    resolution (senders.map fun sender => (sender, decision)) index =
      if index ∈ senders then some decision else none := by
  induction senders with
  | nil => rfl
  | cons first rest ih =>
    by_cases same : first = index
    · simp [resolution, same]
    · rw [resolution, map_cons, find?_cons_of_neg (by simpa using same)]
      simpa [resolution, Ne.symm same] using ih

/-- The message is answered at once.  Where its begin returned `New` and the taberna refused it,
the begin was completed before anyone could join. -/
structure Answered (inbound next : Inbound) (peerMsgId : PeerMessageId) : Prop where
  alike : next.session.dedupe.Alike inbound.session.dedupe
  dispatch : next.session.dispatch = inbound.session.dispatch
  waiters : next.waiters = inbound.waiters
  deliveries : next.deliveries = inbound.deliveries
  duplicates : next.duplicates = inbound.duplicates
  outcomes : ∀ outcome ∈ next.outcomes, outcome ∈ inbound.outcomes ∨ outcome = .skip ∨
    (∃ error, outcome = .error peerMsgId error) ∨
    (outcome = .ack peerMsgId ∧ peerMsgId ∈ inbound.session.dedupe.set)

/-- The message joins the pending entry of its id. -/
def joined (inbound : Inbound) (callis : CallisId) (peerMsgId : PeerMessageId)
    (waiting : List DecisionSender) : Inbound :=
  ((inbound.setDedupe { inbound.session.dedupe with
    pending := AList.insert peerMsgId (waiting ++ [inbound.duplicates.length])
      inbound.session.dedupe.pending }).pushDuplicate peerMsgId).insertWaiter
    ⟨callis, peerMsgId, .duplicate inbound.duplicates.length⟩

/-- The message begins its id, and the taberna takes the request. -/
def delivered (inbound : Inbound) (callis : CallisId) (peerMsgId : PeerMessageId)
    (incarnation : Nat) (kind : WaiterKind) : Inbound :=
  ((inbound.setDedupe { inbound.session.dedupe with
    pending := AList.insert peerMsgId [] inbound.session.dedupe.pending }).pushDelivery peerMsgId
      incarnation).insertWaiter ⟨callis, peerMsgId, kind⟩

/-- Everything the receipt of a message can do. -/
inductive Received (inbound : Inbound) (callis : CallisId) (incarnation : Nat)
    (peerMsgId : PeerMessageId) : Inbound → Prop where
  | answered {next : Inbound} : inbound.Answered next peerMsgId →
      Received inbound callis incarnation peerMsgId next
  | joined {waiting : List DecisionSender} : peerMsgId ∉ inbound.session.dedupe.set →
      inbound.session.dedupe.pending.lookup peerMsgId = some waiting →
      Received inbound callis incarnation peerMsgId (inbound.joined callis peerMsgId waiting)
  | delivered {kind : WaiterKind} : peerMsgId ∉ inbound.session.dedupe.set →
      inbound.session.dedupe.pending.lookup peerMsgId = none →
      kind = .message inbound.deliveries.length ∨ kind = .blobAccept inbound.deliveries.length →
      Received inbound callis incarnation peerMsgId
        (inbound.delivered callis peerMsgId incarnation kind)

theorem answered_of_outcome (inbound : Inbound)
    {outcome : InboundOutcome}
    (allowed : outcome = .skip ∨ (∃ error, outcome = .error peerMsgId error) ∨
      (outcome = .ack peerMsgId ∧ peerMsgId ∈ inbound.session.dedupe.set)) :
    inbound.Answered (inbound.pushOutcome outcome) peerMsgId where
  alike := .refl _
  dispatch := rfl
  waiters := rfl
  deliveries := rfl
  duplicates := rfl
  outcomes other listed := by
    rcases mem_append.mp listed with old | here
    · exact .inl old
    · exact .inr (mem_singleton.mp here ▸ allowed)

theorem refused_alike (state : DedupeState) (sendQueueSize : Nat)
    (error : AureliaError) (vacant : state.pending.lookup peerMsgId = none) :
    ({ state with pending := AList.insert peerMsgId [] state.pending }.dedupeComplete sendQueueSize
      peerMsgId (.error error)).2.Alike state := by
  refine ⟨rfl, rfl, fun other => ?_⟩
  rw [DedupeState.dedupeComplete_lookup]
  by_cases same : other = peerMsgId
  · rw [if_pos same, same, vacant]
  · rw [if_neg same]
    exact AList.lookup_insert_ne same

theorem refused_resolutions (state : DedupeState) (peerMsgId : PeerMessageId) (sendQueueSize : Nat)
    (error : AureliaError) :
    ({ state with pending := AList.insert peerMsgId [] state.pending }.dedupeComplete sendQueueSize
      peerMsgId (.error error)).1 = [] := by
  simp [DedupeState.dedupeComplete, DedupeState.waiters]

theorem received_of_begin (inbound : Inbound) (callis : CallisId) (incarnation : Nat)
    (message : PeerMessage) (sink : Except AureliaError Unit) (sendQueueSize : Nat) (blob : Bool)
    {schedule : ReceiveSchedule} {resolved : List Resolution} {session : PeerSession}
    (scheduled : inbound.session.schedule message
      (sink.map fun _ => inbound.deliveries.length) inbound.duplicates.length
      sendQueueSize = (schedule, resolved, session)) :
    Received inbound callis incarnation message.peerMsgId
      (({ inbound with session := session }.resolve resolved).applySchedule callis
        message.peerMsgId incarnation blob schedule) := by
  unfold PeerSession.schedule at scheduled
  rcases inbound.session.dedupe.dedupeBegin_cases message.peerMsgId inbound.duplicates.length with
    ⟨recorded, begun⟩ | ⟨_, unrecorded, found, begun⟩ | ⟨unrecorded, vacant, begun⟩
  · simp only [begun, Prod.mk.injEq] at scheduled
    obtain ⟨rfl, rfl, rfl⟩ := scheduled
    rw [resolve_nil]
    exact .answered (inbound.answered_of_outcome (.inr (.inr ⟨rfl, recorded⟩)))
  · simp only [begun, Prod.mk.injEq] at scheduled
    obtain ⟨rfl, rfl, rfl⟩ := scheduled
    rw [resolve_nil]
    exact .joined unrecorded found
  · simp only [begun] at scheduled
    cases sink with
    | ok =>
      simp only [Except.map, Prod.mk.injEq] at scheduled
      obtain ⟨rfl, rfl, rfl⟩ := scheduled
      rw [resolve_nil]
      refine .delivered unrecorded vacant ?_
      cases blob
      · exact .inl rfl
      · exact .inr rfl
    | error error =>
      simp only [Except.map, Prod.mk.injEq] at scheduled
      obtain ⟨rfl, rfl, rfl⟩ := scheduled
      rw [refused_resolutions, resolve_nil]
      refine .answered ⟨refused_alike _ sendQueueSize error vacant, rfl, rfl, rfl, rfl, ?_⟩
      intro outcome listed
      rcases mem_append.mp listed with old | here
      · exact .inl old
      · exact .inr (.inr (.inl ⟨error, mem_singleton.mp here⟩))

theorem receiveMessage_received (inbound : Inbound) (callis : CallisId) (incarnation : Nat)
    (message : PeerMessage) (cancelled : CancelReason) (sink : Option (Except AureliaError Unit))
    (sendQueueSize : Nat) :
    Received inbound callis incarnation message.peerMsgId
      (inbound.receiveMessage callis incarnation message cancelled sink sendQueueSize) := by
  unfold receiveMessage
  simp only
  split
  · split
    · exact .answered (inbound.answered_of_outcome (.inl rfl))
    · cases sink with
      | some enqueued =>
        exact received_of_begin inbound callis incarnation message enqueued sendQueueSize true rfl
      | none =>
        -- An unknown taberna refuses as a full one does.
        exact received_of_begin inbound callis incarnation message
          (.error (.new .unknownTaberna)) sendQueueSize true rfl
  · split
    · split
      · exact .answered (inbound.answered_of_outcome (.inr (.inl ⟨_, rfl⟩)))
      · split
        · exact .answered (inbound.answered_of_outcome (.inl rfl))
        · cases closing : inbound.session.closing with
          | true =>
            simp only [PeerSession.receiveMessageSchedule, closing, if_pos, resolve_nil]
            exact .answered (inbound.answered_of_outcome (.inr (.inl ⟨_, rfl⟩)))
          | false =>
            cases sink with
            | none =>
              simp only [PeerSession.receiveMessageSchedule, closing, Bool.false_eq_true,
                if_false, map_none, resolve_nil]
              exact .answered (inbound.answered_of_outcome (.inr (.inl ⟨_, rfl⟩)))
            | some enqueued =>
              simp only [PeerSession.receiveMessageSchedule, closing, Bool.false_eq_true,
                if_false, map_some]
              exact received_of_begin inbound callis incarnation message enqueued sendQueueSize
                false rfl
    · exact .answered ⟨.refl _, rfl, rfl, rfl, rfl, fun _ listed => .inl listed⟩

theorem Received.dispatch_eq {callis : CallisId} {incarnation : Nat}
    (received : inbound.Received callis incarnation peerMsgId next) :
    next.session.dispatch = inbound.session.dispatch := by
  cases received with
  | answered answered => exact answered.dispatch
  | joined => rfl
  | delivered => rfl

/-- Everything the drain of a waiter can do. -/
inductive Drained (inbound : Inbound) (index : Nat) (waiter : InboundWaiter)
    (activation : BlobActivation) (sendQueueSize : Nat) : Inbound → Prop where
  | decided {token : AcceptReceiver} {decision : AcceptDecision} :
      waiter.kind = .message token ∨ (waiter.kind = .blobAccept token ∧ decision ≠ .accepted) →
      inbound.decisionOn token = some decision →
      Drained inbound index waiter activation sendQueueSize
        ((inbound.removeWaiter index).finish sendQueueSize waiter.peerMsgId
          (acceptResult decision))
  | activated {token : AcceptReceiver} :
      (waiter.kind = .blobAccept token ∧ inbound.decisionOn token = some .accepted) ∨
        waiter.kind = .blobCallis token →
      Drained inbound index waiter activation sendQueueSize
        ((inbound.removeWaiter index).activate waiter token sendQueueSize activation)
  | resolved {decisionRx : DecisionSender} {decision : DedupeDecision} :
      waiter.kind = .duplicate decisionRx →
      (inbound.duplicates[decisionRx]?).bind Duplicate.decision = some decision →
      Drained inbound index waiter activation sendQueueSize
        ((inbound.removeWaiter index).pushOutcome
          (drainDuplicateWaiter waiter.peerMsgId decision))
  | closed {decisionRx : DecisionSender} : waiter.kind = .duplicate decisionRx →
      Drained inbound index waiter activation sendQueueSize
        ((inbound.removeWaiter index).pushOutcome .skip)

theorem drain_drained (taken : inbound.drain index activation sendQueueSize = some next) :
    ∃ waiter, inbound.waiters[index]? = some waiter ∧
      Drained inbound index waiter activation sendQueueSize next := by
  unfold drain at taken
  split at taken
  · cases taken
  · rename_i waiter found
    refine ⟨waiter, found, ?_⟩
    simp only at taken
    split at taken
    · rename_i token kind
      obtain ⟨decision, decided, rfl⟩ := map_eq_some_iff.mp taken
      exact .decided (.inl kind) decided
    · rename_i token kind
      obtain ⟨decision, decided, rfl⟩ := map_eq_some_iff.mp taken
      split
      · rename_i accepted
        exact .activated (.inl ⟨kind, accepted ▸ decided⟩)
      · rename_i other
        exact .decided (.inr ⟨kind, other⟩) decided
    · rename_i token kind
      cases taken
      exact .activated (.inr kind)
    · rename_i decisionRx kind
      split at taken
      · rename_i decision sent
        cases taken
        exact .resolved kind sent
      · split at taken
        · cases taken
        · cases taken
          exact .closed kind

/-- A cancelled waiter goes; its begin, if it owns one, is completed with an error or abandoned. -/
theorem cancel_cases (taken : inbound.cancel index reason sendQueueSize = some next) :
    ∃ waiter, inbound.waiters[index]? = some waiter ∧
      ((waiter.kind.token = none ∧ next = inbound.removeWaiter index) ∨
        ∃ token, waiter.kind.token = some token ∧
          (next = (inbound.removeWaiter index).complete sendQueueSize waiter.peerMsgId
              (.error (.new .peerUnavailable)) ∨
            next = (inbound.removeWaiter index).abandon waiter.peerMsgId)) := by
  obtain ⟨waiter, found, rfl⟩ := map_eq_some_iff.mp taken
  refine ⟨waiter, found, ?_⟩
  cases waiter.kind with
  | duplicate decisionRx => exact .inl ⟨rfl, rfl⟩
  | message token | blobAccept token | blobCallis token =>
    refine .inr ⟨token, rfl, ?_⟩
    cases reason.shouldError
    · exact .inr rfl
    · exact .inl rfl

theorem drained_eq {waiter : InboundWaiter}
    (drained : inbound.Drained index waiter activation sendQueueSize next) :
    next.deliveries = inbound.deliveries ∧
      next.session.dispatch = inbound.session.dispatch := by
  cases drained with
  | activated _ => cases activation <;> exact ⟨rfl, rfl⟩
  | decided _ _ | resolved _ _ | closed _ => exact ⟨rfl, rfl⟩

theorem cancel_eq (taken : inbound.cancel index reason sendQueueSize = some next) :
    next.deliveries = inbound.deliveries ∧
      next.session.dispatch = inbound.session.dispatch := by
  obtain ⟨_, _, ⟨_, rfl⟩ | ⟨_, _, rfl | rfl⟩⟩ := cancel_cases taken <;> exact ⟨rfl, rfl⟩

theorem decide_ids {token : AcceptReceiver} {decision : AcceptDecision}
    (taken : inbound.decide token decision = some next) {delivery : Delivery}
    (listed : delivery ∈ next.deliveries) :
    ∃ old ∈ inbound.deliveries, old.peerMsgId = delivery.peerMsgId := by
  unfold decide at taken
  split at taken
  · rename_i held found
    split at taken
    · cases taken
      rcases mem_or_eq_of_mem_set listed with old | rfl
      · exact ⟨delivery, old, rfl⟩
      · exact ⟨held, mem_of_getElem? found, rfl⟩
    · cases taken
  · cases taken

end Inbound

end AureliaPeering.Net
