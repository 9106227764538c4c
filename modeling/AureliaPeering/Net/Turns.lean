import AureliaPeering.Net.Wire

/-!
What a step does to the inbound half of either endpoint.

`Turn` lists it case by case, so that an invariant about deliveries or answers splits here and
never opens the step function.
-/

namespace AureliaPeering.Net

open Collections Store Session

/-- A frame on a callis of the present process of `side`. -/
def Peering.Underway (net : Peering) (side : Side) (packet : Packet) : Prop :=
  packet ∈ net.wire side.other ∧ net.owns side packet.callis = true

/-- A frame that the present process of `side` may receive now. -/
def Peering.Arrives (net : Peering) (side : Side) (packet : Packet) : Prop :=
  packet ∈ net.wire side.other ∧ net.lives side packet.callis = true

def Label.spendsOn (label : Label) (side : Side) : Nat :=
  if side = label.actor then label.spends else 0

inductive Turn (net : Peering) (label : Label) (side : Side) : Endpoint → Prop where
  | quiet {after : Endpoint} : (net.endpoint side).Quiet after →
      after.sent = (net.endpoint side).sent + label.spendsOn side → Turn net label side after
  | acked {after : Endpoint} {packet : Packet} {peerMsgId : PeerMessageId}
      {completed : List PeerMessageId} : net.Arrives side packet → packet.frame = .ack peerMsgId →
      (∀ other ∈ completed, other = peerMsgId ∧ (net.endpoint side).dispatch.Tracks peerMsgId) →
      Endpoint.Quiet { net.endpoint side with
        succeeded := (net.endpoint side).succeeded ++ completed } after →
      after.sent = (net.endpoint side).sent + label.spendsOn side → Turn net label side after
  | heard {packet : Packet} {message : PeerMessage} {inbound : Inbound} :
      net.Arrives side packet → packet.frame = .message message →
      (net.endpoint side).inbound.Received packet.callis packet.incarnation message.peerMsgId
        inbound → label.spendsOn side = 0 →
      Turn net label side { net.endpoint side with
        inbound := inbound
        heard := (net.endpoint side).heard ++ [(packet.incarnation, message.peerMsgId)] }
  | decided {token : AcceptReceiver} {decision : AcceptDecision} {inbound : Inbound} :
      (net.endpoint side).inbound.decide token decision = some inbound → label.spendsOn side = 0 →
      Turn net label side ((net.endpoint side).setInbound inbound)
  | drained {index : Nat} {waiter : InboundWaiter} {activation : BlobActivation}
      {sendQueueSize : Nat} {inbound : Inbound} :
      label = .drain side index activation sendQueueSize →
      (net.endpoint side).inbound.waiters[index]? = some waiter →
      (net.endpoint side).inbound.Drained index waiter activation sendQueueSize inbound →
      Turn net label side ((net.endpoint side).setInbound inbound)
  | cancelled {index : Nat} {reason : CancelReason} {sendQueueSize : Nat} {inbound : Inbound} :
      label = .cancel side index reason sendQueueSize →
      (net.endpoint side).inbound.cancel index reason sendQueueSize = some inbound →
      Turn net label side ((net.endpoint side).setInbound inbound)
  | dropped {index : Nat} {inbound : Inbound} :
      (net.endpoint side).inbound.drop index = some inbound → label.spendsOn side = 0 →
      Turn net label side ((net.endpoint side).setInbound inbound)
  | greeted {after : Endpoint} {callis : CallisId} {link : Link} {input : HelloInput}
      {dedupe : DedupeState} {peer : Nat} : label = .hello side callis input →
      net.links.lookup callis = some link →
      (dedupe = (net.endpoint side).inbound.session.dedupe ∨
        (link.phase.clears = true ∧ dedupe = .new)) →
      (peer = (net.endpoint side).peer ∨
        (link.phase.joins = true ∧ peer = max (net.endpoint side).peer (link.at side.other))) →
      ((net.endpoint side).meets dedupe peer).Quiet after →
      after.sent = (net.endpoint side).sent → Turn net label side after
  | restarted {capacities : RetainedCapacities} {now : Instant} :
      label = .restart side capacities now →
      Turn net label side ((net.restart side capacities now).endpoint side)

variable {net : Peering} {label : Label}

theorem successes_of_ack {store next : RetainedStore} {peerMsgId other : PeerMessageId}
    {output : Output} (stepped : Store.step store (.ack peerMsgId) = .ok (output, next))
    (inv : store.Invariant) (completed : other ∈ successes output) :
    other = peerMsgId ∧ store.Tracks peerMsgId := by
  simp only [Store.step, RetainedStore.ack, Except.ok.injEq, Prod.mk.injEq] at stepped
  obtain ⟨rfl, _⟩ := stepped
  rcases RetainedStore.completeOne_cases inv peerMsgId (.ok ()) with
    ⟨_, missed⟩ | ⟨id, stored, outbound, _, _, present, item_eq, same_id, found, _⟩
  · simp [missed, successes, Output.completions] at completed
  · rw [found] at completed
    refine ⟨by simpa [successes, Output.completions] using completed, ?_⟩
    exact ⟨outbound, ⟨id, stored, present, item_eq⟩, same_id⟩

theorem Turn.untouched (side : Side)
    (spends : label.spendsOn side = 0) : Turn net label side (net.endpoint side) :=
  .quiet (.setSent _ _) (by rw [spends]; rfl)

theorem Turn.elsewhere {side : Side} (other : side ≠ label.actor) :
    Turn net label side (net.endpoint side) :=
  .untouched side (if_neg other)

namespace Peering

variable {net next : Peering} {label : Label}

variable {after : Endpoint} {side : Side}

theorem turn_setEndpoint (turn : Turn net label label.actor after)
    (side : Side) : Turn net label side ((net.setEndpoint label.actor after).endpoint side) := by
  rw [endpoint_setEndpoint]
  split
  · rename_i here
    exact here ▸ turn
  · rename_i other
    exact .elsewhere other

theorem hello_turn {callis : CallisId} {link : Link} {input : HelloInput} {task : HelloTask}
    (sound : net.Sound) (ordered : net.Ordered (.hello side callis input))
    (linked : net.links.lookup callis = some link)
    (advanced : helloSection (link.dials side) (net.endpoint side).inbound.session link.reconnect
      input link.phase = some task) :
    Turn net (.hello side callis input) side ((net.endpoint side).greet (link.at side.other)
      ({ link with phase := task.phase }.live side) task) := by
  obtain ⟨dedupe, acts⟩ := Endpoint.greet_acts (sound.store side)
    (fun fails => ordered (atPhase_of linked fails)) advanced (link.at side.other)
    ({ link with phase := task.phase }.live side)
  refine .greeted rfl linked dedupe ?_ acts.quiet acts.sent
  split
  · rename_i live
    exact .inr ⟨(helloSection_live advanced).1 live, rfl⟩
  · exact .inl rfl

theorem receive_turn {packet : Packet} {cancelled : CancelReason}
    {sink : Option (Except AureliaError Unit)} {error : AureliaError} {sendQueueSize : Nat}
    (sound : net.Sound) (arrives : net.Arrives side packet)
    (received : (net.endpoint side).receive packet cancelled sink error sendQueueSize =
      some after) (spends : label.spendsOn side = 0) : Turn net label side after := by
  unfold Endpoint.receive at received
  split at received
  · rename_i peerMsgId frame
    obtain ⟨⟨output, result⟩, performed, rfl⟩ := Option.map_eq_some_iff.mp received
    obtain ⟨dispatch, stepped, rfl⟩ := Endpoint.perform_eq performed
    refine .acked arrives frame (fun other => successes_of_ack stepped (sound.store side)) ?_
      (by rw [spends]; rfl)
    exact ⟨rfl, rfl, rfl, rfl, List.Subset.refl _, rfl, rfl, rfl, rfl⟩
  · split at received
    · have acts := Endpoint.internal_acts received (sound.store side) trivial (by simp) rfl
        Endpoint.Nothing
      exact .quiet acts.quiet (by rw [acts.sent, spends])
    · cases received
      exact .untouched side spends
  · rename_i message frame
    cases received
    exact .heard arrives frame (Inbound.receiveMessage_received ..) spends

theorem step_turn (sound : net.Sound) (ordered : net.Ordered label)
    (taken : net.step label = some next) (side : Side) :
    Turn net label side (next.endpoint side) := by
  cases isQuiet : label.quiet with
  | true =>
    obtain ⟨after, rfl, acts⟩ := quiet_cases (sound.store label.actor) ordered isQuiet taken
    refine turn_setEndpoint (.quiet acts.quiet ?_) side
    rw [acts.sent, Label.spendsOn, if_pos rfl]
  | false =>
    cases label with
    | put actor index =>
      obtain ⟨_, _, _, _, rfl⟩ := put_eq taken
      exact @turn_setEndpoint net (.put actor index) _
        (.quiet (.setClaims _ _) (by simp [Label.spendsOn, Label.spends, Label.actor])) side
    | lose actor callis keep =>
      cases taken
      exact .untouched side (by simp [Label.spendsOn, Label.spends])
    | receive actor callis cancelled sink error sendQueueSize =>
      obtain ⟨packet, after, alive, listed, rfl, received, rfl⟩ := receive_eq taken
      exact @turn_setEndpoint net (.receive actor packet.callis cancelled sink error sendQueueSize)
        _ (receive_turn sound ⟨listed, alive⟩ received
          (by simp [Label.spendsOn, Label.spends])) side
    | decide actor token decision =>
      simp only [step] at taken
      obtain ⟨inbound, decided, rfl⟩ := inboundOf_eq taken
      exact @turn_setEndpoint net (.decide actor token decision) _
        (.decided decided (by simp [Label.spendsOn, Label.spends])) side
    | drain actor index activation sendQueueSize =>
      simp only [step] at taken
      obtain ⟨inbound, drained, rfl⟩ := inboundOf_eq taken
      obtain ⟨_, found, drained⟩ := Inbound.drain_drained drained
      exact @turn_setEndpoint net (.drain actor index activation sendQueueSize) _
        (.drained rfl found drained) side
    | cancel actor index reason sendQueueSize =>
      simp only [step] at taken
      obtain ⟨inbound, cancelled, rfl⟩ := inboundOf_eq taken
      exact @turn_setEndpoint net (.cancel actor index reason sendQueueSize) _
        (.cancelled rfl cancelled) side
    | drop actor index =>
      simp only [step] at taken
      obtain ⟨inbound, dropped, rfl⟩ := inboundOf_eq taken
      exact @turn_setEndpoint net (.drop actor index) _
        (.dropped dropped (by simp [Label.spendsOn, Label.spends])) side
    | dial actor callis =>
      obtain ⟨_, rfl⟩ := dial_eq taken
      exact .untouched side (by simp [Label.spendsOn, Label.spends])
    | hello actor callis input =>
      obtain ⟨link, task, linked, _, advanced, rfl⟩ := hello_eq taken
      exact @turn_setEndpoint net (.hello actor callis input) _
        (hello_turn sound ordered linked advanced) side
    | restart actor capacities now =>
      cases taken
      by_cases here : side = actor
      · subst here
        exact .restarted rfl
      · have kept : (net.restart actor capacities now).endpoint side = net.endpoint side := by
          simp only [restart, endpoint_setEndpoint, if_neg here]
        rw [kept]
        exact .elsewhere here
    | send | allocate | store | claim | written | forget | respond | close => cases isQuiet

end Peering

end AureliaPeering.Net
