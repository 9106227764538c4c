import AureliaPeering.Net.Deliveries
import AureliaPeering.Net.Turns

/-!
At-most-once delivery between two processes of one session.

The sender may bring a message to the receiver as long as it is retained or on the wire.  The
receiver delivers an id once, provided that it forgets no begin of an id that may still come:
neither a cancelled waiter, nor a full history, nor a failed blob activation, nor a handshake may
release one.
-/

namespace AureliaPeering.Net

open Collections Store Session List

def Inbound.accepted (inbound : Inbound) : List PeerMessageId :=
  (inbound.deliveries.filter fun delivery => delivery.decision = some .accepted).map
    Delivery.peerMsgId

theorem Delivery.live_of_accepted {delivery : Delivery}
    (accepted : delivery.decision = some .accepted) : delivery.live = true := by
  simp [Delivery.live, accepted]

theorem Inbound.live_of_accepted {inbound : Inbound} {peerMsgId : PeerMessageId}
    (accepted : peerMsgId ∈ inbound.accepted) : inbound.Live peerMsgId := by
  obtain ⟨delivery, listed, same⟩ := mem_map.mp accepted
  obtain ⟨held, decided⟩ := mem_filter.mp listed
  exact ⟨delivery, held, Delivery.live_of_accepted (of_decide_eq_true decided), same⟩

theorem Inbound.Tidy.accepted_nodup {inbound : Inbound} {MayArrive : PeerMessageId → Prop}
    (tidy : inbound.Tidy MayArrive) : inbound.accepted.Nodup := by
  refine pairwise_map.mpr (pairwise_filter.mpr (pairwise_iff_getElem.mpr ?_))
  intro first second first_lt second_lt earlier accepted also_accepted same
  have together := tidy.single first second _ _ (getElem?_eq_getElem first_lt)
    (getElem?_eq_getElem second_lt) (Delivery.live_of_accepted (of_decide_eq_true accepted))
    (Delivery.live_of_accepted (of_decide_eq_true also_accepted)) same
  exact Nat.ne_of_lt earlier together

namespace Peering

/-- A message with the id may still arrive at `side`. -/
def MayArrive (net : Peering) (side : Side) (peerMsgId : PeerMessageId) : Prop :=
  ∃ message : PeerMessage, message.peerMsgId = peerMsgId ∧
    net.InFlight side.other (.message message)

def oneSession (net : Peering) : Label → Bool
  | .send side .. | .allocate side => (net.endpoint side).sent < u32Limit
  | .restart .. => false
  | _ => true

/-- The step forgets no begin of a delivery that is held or accepted while a copy of its message
may still arrive; one that empties the dedupe state forgets no begin that is still to be released
either. -/
def Careful (net : Peering) : Label → Prop
  | .drain side index activation sendQueueSize =>
    ∀ waiter token, (net.endpoint side).inbound.waiters[index]? = some waiter →
      waiter.kind.token = some token →
      (net.endpoint side).inbound.decisionOn token = some .accepted →
      (net.endpoint side).inbound.Spares (net.MayArrive side) waiter activation sendQueueSize
  | .cancel side index _ _ =>
    ∀ waiter token, (net.endpoint side).inbound.waiters[index]? = some waiter →
      waiter.kind.token = some token → net.MayArrive side waiter.peerMsgId →
      ∃ decision, (net.endpoint side).inbound.decisionOn token = some decision ∧
        decision ≠ .accepted
  | .hello side callis _ =>
    net.atPhase HelloPhase.clears callis = true → ∀ peerMsgId, net.MayArrive side peerMsgId →
      ¬ (net.endpoint side).inbound.Live peerMsgId ∧
        (net.endpoint side).inbound.Unowned peerMsgId
  | _ => True

/-- The invariant of a careful session. -/
structure InSession (net : Peering) : Prop where
  sound : net.Sound
  tidy : ∀ side, (net.endpoint side).inbound.Tidy (net.MayArrive side)
  spent : ∀ side peerMsgId, net.MayArrive side peerMsgId →
    peerMsgId < (net.endpoint side.other).sent
  told : ∀ side, ∀ delivery ∈ (net.endpoint side).inbound.deliveries,
    delivery.peerMsgId < (net.endpoint side.other).sent

variable {net next : Peering} {side : Side} {label : Label}

theorem mayArrive_of_arrives {packet : Packet}
    {message : PeerMessage} (arrives : net.Arrives side packet)
    (frame : packet.frame = .message message) : net.MayArrive side message.peerMsgId :=
  ⟨message, rfl, .inr ⟨packet, arrives.1,
    by rw [Side.other_other]; exact owns_of_lives arrives.2, frame⟩⟩

theorem mayArrive_of_step (flows : Flows net next label)
    (allowed : net.oneSession label = true) {peerMsgId : PeerMessageId}
    (arrives : next.MayArrive side peerMsgId) :
    net.MayArrive side peerMsgId ∨
      (label.spendsOn side.other = 1 ∧ peerMsgId = (net.endpoint side.other).sent) := by
  obtain ⟨message, id_eq, flying⟩ := arrives
  rcases flows.frames side.other _ flying with old | ⟨actor, fresh⟩
  · exact .inl ⟨message, id_eq, old⟩
  · cases label with
    | send =>
      obtain ⟨_, same, next_id⟩ := fresh
      obtain rfl := OutboundFrame.message.inj same
      refine .inr ⟨if_pos actor, ?_⟩
      rw [Label.actor] at actor
      simp only [oneSession, decide_eq_true_eq, ← actor] at allowed
      rw [← id_eq, next_id, Nat.mod_eq_of_lt allowed]
    | respond =>
      obtain ⟨outcome, _, _, response⟩ := fresh
      cases outcome with
      | ack => cases response
      | error =>
        obtain ⟨_, same⟩ := response
        cases same
      | skip => exact response.elim
    | allocate | store | claim | put | written | forget | lose | receive | decide | drain | cancel
    | drop | close | dial | hello | restart => exact fresh.elim

/-- What a turn within one session leaves of an endpoint. -/
structure Keeps (net : Peering) (label : Label) (side : Side) (after : Endpoint) : Prop where
  sent : after.sent = (net.endpoint side).sent + label.spendsOn side
  tidy : after.inbound.Tidy (net.MayArrive side)
  told : ∀ delivery ∈ after.inbound.deliveries,
    (∃ old ∈ (net.endpoint side).inbound.deliveries, old.peerMsgId = delivery.peerMsgId) ∨
      net.MayArrive side delivery.peerMsgId

theorem InSession.keeps {after : Endpoint}
    (inv : net.InSession) (turn : Turn net label side after)
    (allowed : net.oneSession label = true) (careful : net.Careful label) :
    Keeps net label side after := by
  have tidy := inv.tidy side
  cases turn with
  | quiet quiet sent_eq | acked _ _ _ quiet sent_eq =>
    refine ⟨sent_eq, ?_, fun delivery listed => .inl ?_⟩
    · exact tidy.congr (quiet.dedupe ▸ .refl _) quiet.waiters quiet.deliveries
    · exact ⟨delivery, quiet.deliveries ▸ listed, rfl⟩
  | heard arrives frame received spends =>
    have may_arrive := mayArrive_of_arrives arrives frame
    refine ⟨by rw [spends]; rfl, tidy.received received may_arrive,
      fun delivery listed => ?_⟩
    cases received with
    | answered answered => exact .inl ⟨delivery, answered.deliveries ▸ listed, rfl⟩
    | joined _ _ => exact .inl ⟨delivery, listed, rfl⟩
    | delivered _ _ _ =>
      rcases mem_append.mp listed with old | here
      · exact .inl ⟨delivery, old, rfl⟩
      · rw [mem_singleton.mp here]
        exact .inr may_arrive
  | decided decided spends =>
    refine ⟨by rw [spends]; rfl, tidy.decide decided, fun delivery listed => .inl ?_⟩
    exact Inbound.decide_ids decided listed
  | drained label_eq found drained =>
    subst label_eq
    refine ⟨by simp [Label.spendsOn, Label.spends, Endpoint.setInbound],
      tidy.drained found drained fun token => careful _ token found,
      fun delivery listed => .inl ⟨delivery, ?_, rfl⟩⟩
    rwa [← (Inbound.drained_eq drained).1]
  | cancelled label_eq cancelled =>
    subst label_eq
    refine ⟨by simp [Label.spendsOn, Label.spends, Endpoint.setInbound],
      tidy.cancel cancelled careful, fun delivery listed => .inl ⟨delivery, ?_, rfl⟩⟩
    rwa [← (Inbound.cancel_eq cancelled).1]
  | dropped dropped spends =>
    refine ⟨by rw [spends]; rfl, tidy.drop dropped,
      fun delivery listed => .inl ⟨delivery, ?_, rfl⟩⟩
    obtain ⟨_, _, rfl⟩ := Option.map_eq_some_iff.mp dropped
    exact listed
  | @greeted _ _ _ _ dedupe _ label_eq linked met _ quiet sent_eq =>
    subst label_eq
    have met : ((net.endpoint side).inbound.setDedupe dedupe).Tidy (net.MayArrive side) := by
      rcases met with rfl | ⟨clears, rfl⟩
      · exact tidy
      · exact tidy.clear (careful (atPhase_of linked clears))
    refine ⟨by simpa [Label.spendsOn, Label.spends] using sent_eq,
      met.congr (quiet.dedupe ▸ .refl _) quiet.waiters quiet.deliveries,
      fun delivery listed => .inl ⟨delivery, ?_, rfl⟩⟩
    rw [quiet.deliveries] at listed
    exact listed
  | restarted label_eq =>
    subst label_eq
    cases allowed

theorem InSession.step (inv : net.InSession)
    (taken : system.Step net label next) (allowed : net.oneSession label = true)
    (careful : net.Careful label) : next.InSession := by
  obtain ⟨ordered, stepped⟩ := taken
  have flows := step_flows inv.sound ordered stepped
  have keeps := fun side => inv.keeps (step_turn inv.sound ordered stepped side) allowed careful
  have told : ∀ side, ∀ delivery ∈ (next.endpoint side).inbound.deliveries,
      delivery.peerMsgId < (net.endpoint side.other).sent := by
    intro side delivery listed
    rcases (keeps side).told delivery listed with ⟨old, held, same⟩ | arrives
    · exact same ▸ inv.told side old held
    · exact inv.spent side _ arrives
  refine ⟨flows.sound, fun side => ?_, ?_, ?_⟩
  · -- A message that is brought in has an id that no delivery has.
    refine (keeps side).tidy.of_arrivals fun delivery listed arrives => ?_
    rcases mayArrive_of_step flows allowed arrives with old | ⟨_, fresh⟩
    · exact old
    · exact absurd fresh (Nat.ne_of_lt (told side delivery listed))
  · intro side peerMsgId arrives
    rw [(keeps side.other).sent]
    rcases mayArrive_of_step flows allowed arrives with old | ⟨spends, fresh⟩
    · exact Nat.lt_add_right _ (inv.spent side peerMsgId old)
    · rw [fresh, spends]
      exact Nat.lt_succ_self _
  · intro side delivery listed
    rw [(keeps side.other).sent]
    exact Nat.lt_add_right _ (told side delivery listed)

theorem start_inSession (capacities : RetainedCapacities) (now : Instant) :
    (start capacities now).InSession where
  sound := start_sound capacities now
  tidy _ :=
    { history := DedupeState.new_invariant
      known := by simp [start, Endpoint.new]
      single := by simp [start, Endpoint.new]
      apart := .nil
      owned := by simp [start, Endpoint.new]
      activated := by simp [start, Endpoint.new] }
  spent side peerMsgId arrives := by
    obtain ⟨_, _, (⟨item, stored, _⟩ | ⟨_, listed, _⟩) | ⟨_, listed, _⟩⟩ :=
      arrives
    · exact absurd stored (RetainedStore.new_stores capacities now item)
    · cases listed
    · cases listed
  told _ _ listed := by cases listed

def carefulSession : Machine.System Peering Label :=
  system.restrict fun net label => net.oneSession label = true ∧ net.Careful label

theorem carefulSession_inSession (reached : carefulSession.Reachable net) :
    net.InSession :=
  reached.invariant
    (by
      rintro _ ⟨capacities, now, rfl⟩
      exact start_inSession capacities now)
    (fun _ _ _ inv taken => inv.step taken.1 taken.2.1 taken.2.2)

theorem start_reachable (Allowed : Peering → Label → Prop) :
    (system.restrict Allowed).Reachable (start smallCapacities 0) :=
  .start ⟨smallCapacities, 0, rfl⟩

/-- The steps of a session that walk no index, drain nothing and cancel nothing, and empty the
dedupe state only before the first delivery. -/
def patientStep (net : Peering) : Label → Option Peering
  | .drain .. | .cancel .. => none
  | .hello side callis input =>
    if net.unwalked (.hello side callis input) && (!net.atPhase HelloPhase.clears callis ||
        ((net.endpoint side).inbound.deliveries.isEmpty &&
          (net.endpoint side).inbound.waiters.isEmpty)) then
      net.step (.hello side callis input)
    else none
  | label => if net.oneSession label && net.unwalked label then net.step label else none

theorem patientStep_careful
    (taken : net.patientStep label = some next) : carefulSession.Step net label next := by
  cases label with
  | drain | cancel => cases taken
  | hello side callis input =>
    simp only [patientStep, Option.ite_none_right_eq_some, Bool.and_eq_true, Bool.or_eq_true,
      Bool.not_eq_true', List.isEmpty_iff] at taken
    obtain ⟨⟨walks, quiet⟩, stepped⟩ := taken
    refine ⟨⟨ordered_of_unwalked walks, stepped⟩, rfl, fun clears peerMsgId _ => ?_⟩
    rcases quiet with kept | ⟨deliveries, waiters⟩
    · rw [clears] at kept
      cases kept
    · simp [Inbound.Live, Inbound.Unowned, deliveries, waiters]
  | send | allocate | store | claim | put | written | forget | lose | receive | decide | drop
  | respond | close | dial | restart =>
    simp only [patientStep, Option.ite_none_right_eq_some, Bool.and_eq_true] at taken
    exact ⟨⟨ordered_of_unwalked taken.1.2, taken.2⟩, taken.1.1, trivial⟩

/-- A message is delivered and accepted, its callis is lost before the answer, and it is put on
the next one. -/
def replayed : List Label :=
  handedOver ++
    [.decide .right 0 .accepted, .store .left (.markCallisReplayReady 1)] ++
    handshake .left 2 3 2 ++ [.claim .left 2, .put .left 0]

/-- The steps of a session that walk no index. -/
def sessionStep (net : Peering) (label : Label) : Option Peering :=
  if net.oneSession label && net.unwalked label then net.step label else none

/-- A callis is lost while the taberna holds the request: the waiter is cancelled, its begin
abandoned, and the replay delivered.  The taberna then accepts both requests. -/
def acceptedTwice : List Label :=
  handedOver ++
    [.cancel .right 0 .connectionLost 16, .store .left (.markCallisReplayReady 1)] ++
    handshake .left 2 3 2 ++
    [.claim .left 2, .put .left 0,
      .receive .right 2 .none (some (.ok ())) (.new .connectionLost) 16,
      .decide .right 0 .accepted, .decide .right 1 .accepted]

end Peering

end AureliaPeering.Net
