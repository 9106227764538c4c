import AureliaPeering.Net.Provenance

/-!
The answers on their way from one side to the other, and the sends they complete.

`Traced` extends `Vouched` from the inbound half of an endpoint to the frames it has in flight and
to what has succeeded at the other end.  Every step keeps it, for any condition on the sending
process.
-/

namespace AureliaPeering.Net

open Collections Store Session

def frameAnswer : OutboundFrame → Option PeerMessageId
  | .ack peerMsgId => some peerMsgId
  | .control msgType peerMsgId _ => if msgType = msgError then some peerMsgId else none
  | .message _ => none

/-- A message with the id was heard from a process that meets `From`. -/
def Endpoint.HeardFrom (endpoint : Endpoint) (From : Nat → Prop) (peerMsgId : PeerMessageId) :
    Prop :=
  ∃ incarnation, From incarnation ∧ (incarnation, peerMsgId) ∈ endpoint.heard

theorem Endpoint.HeardFrom.mono {before after : Endpoint} {From Wider : Nat → Prop}
    {peerMsgId : PeerMessageId} (heard : before.HeardFrom From peerMsgId)
    (wider : ∀ incarnation, From incarnation → Wider incarnation)
    (more : before.heard ⊆ after.heard) : after.HeardFrom Wider peerMsgId := by
  obtain ⟨incarnation, sent, listed⟩ := heard
  exact ⟨incarnation, wider _ sent, more listed⟩

namespace Peering

/-- What `side` answers, it has heard from a process of the other side that meets `From`, and what
it acknowledges, it has accepted from such a process. -/
structure Traced (net : Peering) (side : Side) (From : Nat → Prop) (Current : Prop) : Prop where
  vouched : (net.endpoint side).inbound.Vouched From ((net.endpoint side).HeardFrom From) Current
  flying : ∀ frame peerMsgId, net.InFlight side frame → frameAnswer frame = some peerMsgId →
    (net.endpoint side).HeardFrom From peerMsgId ∧
      (frame = .ack peerMsgId → (net.endpoint side).inbound.AcceptedFrom From peerMsgId)
  succeeded : ∀ peerMsgId ∈ (net.endpoint side.other).succeeded,
    (net.endpoint side).inbound.AcceptedFrom From peerMsgId
  underway : ∀ packet message, net.Underway side packet → packet.frame = .message message →
    From packet.incarnation

variable {net next : Peering} {label : Label} {side : Side} {From : Nat → Prop}
  {Current Next : Prop}
variable {after : Endpoint}

theorem Traced.mono {Wider : Nat → Prop} (traced : net.Traced side From Current)
    (wider : ∀ incarnation, From incarnation → Wider incarnation) :
    net.Traced side Wider Current where
  vouched := traced.vouched.mono wider fun _ heard => heard.mono wider (List.Subset.refl _)
  flying frame peerMsgId flying answer := by
    obtain ⟨heard, accepted⟩ := traced.flying frame peerMsgId flying answer
    exact ⟨heard.mono wider (List.Subset.refl _), fun same => (accepted same).mono wider⟩
  succeeded peerMsgId listed := (traced.succeeded peerMsgId listed).mono wider
  underway packet message coming frame := wider _ (traced.underway packet message coming frame)

theorem restart_endpoint (net : Peering) (side : Side) (capacities : RetainedCapacities)
    (now : Instant) : (net.restart side capacities now).endpoint side =
      { Endpoint.new capacities now ((net.endpoint side).incarnation + 1)
          (net.endpoint side.other).incarnation
          ((net.endpoint side).inbound.deliveries.map fun delivery =>
            { delivery with decision := some (delivery.decision.getD .closed) }) with
        heard := (net.endpoint side).heard } := by
  simp only [restart, endpoint_setEndpoint, if_pos]

theorem restart_vouched (net : Peering) (side : Side) (capacities : RetainedCapacities)
    (now : Instant) (From : Nat → Prop) (Heard : PeerMessageId → Prop) (Next : Prop) :
    ((net.restart side capacities now).endpoint side).inbound.Vouched From Heard Next ∧
      (net.endpoint side).inbound.Grows
        ((net.restart side capacities now).endpoint side).inbound := by
  rw [restart_endpoint]
  refine ⟨⟨?_, ?_, ?_, ?_, ?_, ?_, ?_, ?_⟩, ?_⟩
  · intro waiter listed
    cases listed
  · intro waiter listed
    cases listed
  · intro waiter listed
    cases listed
  · intro waiter listed
    cases listed
  · intro peerMsgId sender listed
    simp [Endpoint.new, PeerSession.new, DedupeState.waiters] at listed
  · intro _ peerMsgId listed
    exact absurd listed (DedupeState.mem_new_set peerMsgId)
  · intro peerMsgId listed
    cases listed
  · intro outcome listed
    cases listed
  · intro token delivery found
    refine ⟨{ delivery with decision := some (delivery.decision.getD .closed) }, ?_, rfl, rfl, ?_⟩
    · simp [Endpoint.new, found]
    · intro accepted
      simp [accepted]

theorem vouched_of_quiet {before : Endpoint} (quiet : before.Quiet after)
    (vouched : before.inbound.Vouched From (before.HeardFrom From) Current) :
    after.inbound.Vouched From (after.HeardFrom From) Current ∧
      before.inbound.Grows after.inbound ∧ before.heard ⊆ after.heard := by
  have grows : before.inbound.Grows after.inbound := .of_eq quiet.deliveries
  have more : before.heard ⊆ after.heard := quiet.heard ▸ List.Subset.refl _
  have carried := vouched.carry grows (quiet.dedupe ▸ .refl _)
    (fun _ listed => quiet.waiters ▸ listed) quiet.duplicates quiet.outcomes
  exact ⟨carried.mono (fun _ => id) fun _ heard => heard.mono (fun _ => id) more, grows, more⟩

/-- What the history records counts after a step if it counted before, or if it is empty. -/
theorem Traced.turn (traced : net.Traced side From Current)
    (turn : Turn net label side after)
    (arrives : ∀ packet message, net.Arrives side packet → packet.frame = .message message →
      Current)
    (current : Next → Current ∨ after.inbound.session.dedupe.set = ∅) :
    after.inbound.Vouched From (after.HeardFrom From) Next ∧
      (net.endpoint side).inbound.Grows after.inbound ∧
      (net.endpoint side).heard ⊆ after.heard := by
  have vouched := traced.vouched
  have still : after.inbound.Vouched From (after.HeardFrom From) Current →
      after.inbound.Vouched From (after.HeardFrom From) Next := by
    refine fun kept => { kept with recorded := fun holds peerMsgId listed => ?_ }
    rcases current holds with counted | empty
    · exact kept.recorded counted peerMsgId listed
    · rw [empty] at listed
      exact absurd listed (Finset.notMem_empty peerMsgId)
  cases turn with
  | quiet quiet _ | acked _ _ _ quiet _ =>
    obtain ⟨kept, grows, more⟩ := vouched_of_quiet quiet vouched
    exact ⟨still kept, grows, more⟩
  | @heard packet message inbound arriving frame received _ =>
    have sent := traced.underway packet message ⟨arriving.1, owns_of_lives arriving.2⟩ frame
    have more : (net.endpoint side).heard ⊆
        (net.endpoint side).heard ++ [(packet.incarnation, message.peerMsgId)] :=
      List.subset_append_left ..
    have heard : ({ net.endpoint side with
        inbound := inbound
        heard := (net.endpoint side).heard ++ [(packet.incarnation, message.peerMsgId)] } :
        Endpoint).HeardFrom From message.peerMsgId :=
      ⟨packet.incarnation, sent, by simp⟩
    obtain ⟨kept, grows⟩ := (vouched.mono (fun _ => id) fun _ known =>
      known.mono (fun _ => id) more).received received sent heard
        (arrives packet message arriving frame)
    exact ⟨still kept, grows, more⟩
  | decided decided _ =>
    obtain ⟨kept, grows⟩ := vouched.decide decided
    exact ⟨still kept, grows, List.Subset.refl _⟩
  | drained _ found drained =>
    exact ⟨still (vouched.drained found drained), .of_eq (Inbound.drained_eq drained).1,
      List.Subset.refl _⟩
  | cancelled _ cancelled =>
    exact ⟨still (vouched.cancel cancelled), .of_eq (Inbound.cancel_eq cancelled).1,
      List.Subset.refl _⟩
  | dropped dropped _ =>
    refine ⟨still (vouched.drop dropped), .of_eq ?_, List.Subset.refl _⟩
    obtain ⟨_, _, rfl⟩ := Option.map_eq_some_iff.mp dropped
    rfl
  | @greeted _ _ _ _ dedupe _ _ _ met _ quiet _ =>
    have met : ((net.endpoint side).inbound.setDedupe dedupe).Vouched From
        ((net.endpoint side).HeardFrom From) Current := by
      rcases met with rfl | ⟨_, rfl⟩
      · exact vouched
      · refine vouched.setDedupe (fun peerMsgId => ?_) fun _ peerMsgId listed => ?_
        · simp [DedupeState.waiters]
        · exact absurd listed (DedupeState.mem_new_set peerMsgId)
    obtain ⟨kept, grows, more⟩ := vouched_of_quiet quiet met
    exact ⟨still kept, grows, more⟩
  | @restarted capacities now _ =>
    obtain ⟨vouched, grows⟩ := restart_vouched net side capacities now From
      (((net.restart side capacities now).endpoint side).HeardFrom From) Next
    refine ⟨vouched, grows, ?_⟩
    rw [restart_endpoint]
    exact List.Subset.refl _

theorem Traced.turn_succeeded (traced : net.Traced side From Current)
    (turn : Turn net label side.other after) :
    ∀ peerMsgId ∈ after.succeeded, (net.endpoint side).inbound.AcceptedFrom From peerMsgId := by
  intro peerMsgId listed
  cases turn with
  | quiet quiet _ | greeted _ _ _ _ quiet _ =>
    exact traced.succeeded peerMsgId (quiet.succeeded ▸ listed)
  | @acked _ packet answered completed arriving frame acknowledged quiet _ =>
    rw [quiet.succeeded] at listed
    rcases List.mem_append.mp listed with old | fresh
    · exact traced.succeeded peerMsgId old
    · obtain ⟨rfl, _⟩ := acknowledged peerMsgId fresh
      rw [Arrives, Side.other_other] at arriving
      exact (traced.flying _ peerMsgId
        (.inr ⟨packet, arriving.1, owns_of_lives arriving.2, frame⟩) rfl).2 rfl
  | heard _ _ _ _ | decided _ _ | drained _ _ _ | cancelled _ _ | dropped _ _ =>
    exact traced.succeeded peerMsgId listed
  | restarted _ =>
    rw [restart_endpoint] at listed
    cases listed

theorem Traced.step (traced : net.Traced side From Current) (sound : net.Sound)
    (ordered : net.Ordered label) (stepped : net.step label = some next)
    (arrives : ∀ packet message, net.Arrives side packet → packet.frame = .message message →
      Current)
    (current : Next → Current ∨ (next.endpoint side).inbound.session.dedupe.set = ∅)
    (underway : ∀ packet message, next.Underway side packet → packet.frame = .message message →
      From packet.incarnation) : next.Traced side From Next := by
  have flows := step_flows sound ordered stepped
  obtain ⟨vouched, grows, more⟩ :=
    traced.turn (step_turn sound ordered stepped side) arrives current
  have succeeded := traced.turn_succeeded (step_turn sound ordered stepped side.other)
  refine ⟨vouched, ?_, fun peerMsgId listed => (succeeded peerMsgId listed).grows grows,
    underway⟩
  intro frame peerMsgId flying answer
  have kept : (net.endpoint side).HeardFrom From peerMsgId ∧
      (frame = .ack peerMsgId → (net.endpoint side).inbound.AcceptedFrom From peerMsgId) := by
    rcases flows.frames side frame flying with old | ⟨_, fresh⟩
    · exact traced.flying frame peerMsgId old answer
    · cases label with
      | send =>
        obtain ⟨message, rfl, _⟩ := fresh
        cases answer
      | respond =>
        obtain ⟨outcome, _, first, response⟩ := fresh
        have listed : outcome ∈ (net.endpoint side).inbound.outcomes := by
          rw [first]
          exact List.mem_cons_self
        cases outcome with
        | ack acknowledged =>
          obtain rfl : frame = .ack acknowledged := response
          cases answer
          exact ⟨traced.vouched.answers _ listed _ rfl, fun _ => traced.vouched.acks _ listed⟩
        | error failed =>
          obtain ⟨_, rfl⟩ := response
          simp only [frameAnswer, errorFrame, if_pos, Option.some.injEq] at answer
          subst answer
          exact ⟨traced.vouched.answers _ listed _ rfl, fun same => by cases same⟩
        | skip => exact response.elim
      | allocate | store | claim | put | written | forget | lose | receive | decide | drain
      | cancel | drop | close | dial | hello | restart => exact fresh.elim
  exact ⟨kept.1.mono (fun _ => id) more, fun same => (kept.2 same).grows grows⟩

end Peering

end AureliaPeering.Net
