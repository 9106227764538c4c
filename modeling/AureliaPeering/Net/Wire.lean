import AureliaPeering.Net.InboundSteps
import AureliaPeering.Net.Steps

/-!
The frames in flight between two endpoints, along every step.
-/

namespace AureliaPeering.Net

open Collections Store Session List Option

namespace Inbound
variable {inbound next : Inbound} {index sendQueueSize : Nat}

theorem decide_dispatch {token : AcceptReceiver}
    {decision : AcceptDecision} (taken : inbound.decide token decision = some next) :
    next.session = inbound.session := by
  unfold decide at taken
  split at taken
  · split at taken
    · cases taken
      rfl
    · cases taken
  · cases taken

theorem drop_dispatch
    (taken : inbound.drop index = some next) : next.session = inbound.session := by
  obtain ⟨_, _, rfl⟩ := map_eq_some_iff.mp taken
  rfl

end Inbound

namespace Peering

/-- A frame of `side` may still arrive at the present process of the other side. -/
def InFlight (net : Peering) (side : Side) (frame : OutboundFrame) : Prop :=
  (net.endpoint side).Holds frame ∨
    ∃ packet ∈ net.wire side, net.owns side.other packet.callis = true ∧ packet.frame = frame

structure Sound (net : Peering) : Prop where
  store : ∀ side, (net.endpoint side).dispatch.Invariant
  wired : ∀ side, ∀ packet ∈ net.wire side, ∃ link,
    net.links.lookup packet.callis = some link ∧ link.at side = packet.incarnation
  past : ∀ callis link, net.links.lookup callis = some link → ∀ side,
    link.at side ≤ (net.endpoint side).incarnation

variable {side : Side} {callis : CallisId} {net next : Peering} {after endpoint : Endpoint}
  {label : Label} {packets : List Packet} {packet : Packet} {index sendQueueSize : Nat}
  {cancelled : CancelReason} {error : AureliaError}

theorem owns_congr (net next : Peering)
    (links : next.links.lookup callis = net.links.lookup callis)
    (incarnation : (next.endpoint side).incarnation = (net.endpoint side).incarnation) :
    next.owns side callis = net.owns side callis := by
  rw [owns, owns, links, incarnation]

theorem owns_iff : net.owns side callis = true ↔
    ∃ link, net.links.lookup callis = some link ∧
      link.at side = (net.endpoint side).incarnation := by
  unfold owns
  split
  · rename_i link linked
    simp [linked]
  · rename_i unlinked
    simp [unlinked]

theorem lives_iff : net.lives side callis = true ↔
    ∃ link, net.links.lookup callis = some link ∧
      link.at side = (net.endpoint side).incarnation ∧ link.live side = true := by
  rw [lives, Bool.and_eq_true, owns_iff, Option.any_eq_true]
  constructor
  · rintro ⟨⟨link, linked, present⟩, _, same, live⟩
    cases linked.symm.trans same
    exact ⟨link, linked, present, live⟩
  · rintro ⟨link, linked, present, live⟩
    exact ⟨⟨link, linked, present⟩, link, linked, live⟩

theorem owns_of_lives (lives : net.lives side callis = true) : net.owns side callis = true :=
  (Bool.and_eq_true_iff.mp lives).1

/-- A callis keeps its two processes. -/
theorem owns_setLink {other : CallisId} {link known : Link}
    (linked : net.links.lookup other = some known)
    (same : ∀ old, net.links.lookup callis = some old → link.at = old.at) (side : Side) :
    (net.setLink callis link).owns side other = net.owns side other := by
  by_cases here : other = callis
  · subst here
    rw [Bool.eq_iff_iff, owns_iff, owns_iff]
    simp [setLink, linked, same known linked]
  · exact owns_congr net (net.setLink callis link)
      ((HashMap.lookup_insert_eq ..).trans (if_neg here)) rfl

theorem Sound.setEndpoint (sound : net.Sound)
    (store : after.dispatch.Invariant)
    (incarnation : (net.endpoint side).incarnation ≤ after.incarnation) :
    (net.setEndpoint side after).Sound where
  store other := by
    rw [endpoint_setEndpoint]
    split
    · exact store
    · exact sound.store other
  wired := sound.wired
  past callis link found other := by
    have bound := sound.past callis link found other
    rw [endpoint_setEndpoint]
    split
    · rename_i same
      subst same
      exact bound.trans incarnation
    · exact bound

theorem inFlight_setEndpoint
    {New : OutboundFrame → Prop} (emits : (net.endpoint side).Emits after New)
    (incarnation : after.incarnation = (net.endpoint side).incarnation) {other : Side}
    {frame : OutboundFrame} (flying : (net.setEndpoint side after).InFlight other frame) :
    net.InFlight other frame ∨ (other = side ∧ New frame) := by
  rcases flying with held | ⟨packet, listed, deliverable, same⟩
  · rw [endpoint_setEndpoint] at held
    split at held
    · rename_i here
      subst here
      exact (emits.holds frame held).imp .inl fun fresh => ⟨rfl, fresh⟩
    · exact .inl (.inl held)
  · refine .inl (.inr ⟨packet, listed, ?_, same⟩)
    have unmoved : ((net.setEndpoint side after).endpoint other.other).incarnation =
        (net.endpoint other.other).incarnation := by
      rw [endpoint_setEndpoint]
      split
      · rename_i here
        rw [here, incarnation]
      · rfl
    exact (owns_congr net (net.setEndpoint side after) rfl unmoved).symm.trans deliverable

/-- The step keeps `Sound`, and what is in flight was so before or is brought in. -/
structure Flows (net next : Peering) (label : Label) : Prop where
  sound : next.Sound
  frames : ∀ side frame, next.InFlight side frame →
    net.InFlight side frame ∨ (side = label.actor ∧ label.Brings (net.endpoint side) frame)

theorem flows_of_endpoint (sound : net.Sound) (actor : label.actor = side)
    (emits : (net.endpoint side).Emits after (label.Brings (net.endpoint side)))
    (incarnation : after.incarnation = (net.endpoint side).incarnation) :
    Flows net (net.setEndpoint side after) label := by
  refine ⟨sound.setEndpoint emits.sound incarnation.ge, fun other frame flying => ?_⟩
  rcases inFlight_setEndpoint emits incarnation flying with old | ⟨rfl, fresh⟩
  · exact .inl old
  · exact .inr ⟨actor.symm, fresh⟩

theorem flows_of_inbound (sound : net.Sound)
    {inbound : Inbound} (actor : label.actor = side)
    (dispatch : inbound.session.dispatch = (net.endpoint side).dispatch) :
    Flows net (net.setEndpoint side ((net.endpoint side).setInbound inbound)) label :=
  flows_of_endpoint sound actor
    (.of_claims_subset (sound.store side) dispatch fun _ listed _ => listed) rfl

theorem mem_of_mem_truncate {keep : Nat} (kept : packet ∈ truncate callis keep packets) :
    packet ∈ packets := by
  induction packets generalizing keep with
  | nil => cases kept
  | cons first rest ih =>
    unfold truncate at kept
    split at kept
    · split at kept
      · exact mem_cons_of_mem _ (ih kept)
      · rcases mem_cons.mp kept with here | later
        · exact here ▸ mem_cons_self
        · exact mem_cons_of_mem _ (ih later)
    · rcases mem_cons.mp kept with here | later
      · exact here ▸ mem_cons_self
      · exact mem_cons_of_mem _ (ih later)

theorem mem_of_mem_setWire {other : Side} (fewer : packets ⊆ net.wire side)
    (listed : packet ∈ (net.setWire side packets).wire other) : packet ∈ net.wire other := by
  rw [wire_setWire] at listed
  split at listed
  · rename_i here
    exact here ▸ fewer listed
  · exact listed

theorem flows_of_wire_subset {middle : Peering} (flows : Flows net middle label)
    (fewer : packets ⊆ middle.wire side) :
    Flows net (middle.setWire side packets) label := by
  refine ⟨⟨flows.sound.store, fun other packet listed => ?_, flows.sound.past⟩,
    fun other frame flying => ?_⟩
  · exact flows.sound.wired other packet (mem_of_mem_setWire fewer listed)
  · refine flows.frames other frame ?_
    rcases flying with held | ⟨packet, listed, rest⟩
    · exact .inl held
    · exact .inr ⟨packet, mem_of_mem_setWire fewer listed, rest⟩

theorem put_eq (taken : net.put side index = some next) :
    ∃ outstanding, (net.endpoint side).claims[index]? = some outstanding ∧
      outstanding.written = false ∧ net.lives side outstanding.claim.callisId = true ∧
      next = (net.setEndpoint side { net.endpoint side with
          claims :=
            (net.endpoint side).claims.set index { outstanding with written := true } }).setWire
        side (net.wire side ++ [⟨outstanding.claim.callisId, (net.endpoint side).incarnation,
          claimToFrame outstanding.claim⟩]) := by
  unfold put at taken
  simp only at taken
  split at taken
  · cases taken
  · rename_i outstanding found
    split at taken
    · cases taken
    · rename_i ready
      simp only [Bool.or_eq_true, Bool.not_eq_true', not_or, Bool.not_eq_true,
        Bool.not_eq_false] at ready
      exact ⟨outstanding, found, ready.1, ready.2, (some.inj taken).symm⟩

theorem put_flows (sound : net.Sound)
    (taken : net.put side index = some next) : Flows net next (.put side index) := by
  obtain ⟨outstanding, found, unwritten, alive, rfl⟩ := put_eq taken
  obtain ⟨link, linked, present, _⟩ := lives_iff.mp alive
  have held : (net.endpoint side).Holds (claimToFrame outstanding.claim) :=
    .inr ⟨outstanding, mem_of_getElem? found, unwritten, rfl⟩
  have emits : (net.endpoint side).Emits { net.endpoint side with
      claims := (net.endpoint side).claims.set index { outstanding with written := true } }
      ((Label.put side index).Brings (net.endpoint side)) := by
    refine .of_claims_subset (sound.store side) rfl fun other listed unwritten => ?_
    rcases mem_or_eq_of_mem_set listed with old | rfl
    · exact old
    · cases unwritten
  have flows : Flows net _ (.put side index) := flows_of_endpoint sound rfl emits rfl
  refine ⟨⟨flows.sound.store, fun other packet listed => ?_, flows.sound.past⟩,
    fun other frame flying => ?_⟩
  · rw [wire_setWire] at listed
    split at listed
    · rename_i here
      subst here
      rcases mem_append.mp listed with old | new
      · exact sound.wired other packet old
      · rw [mem_singleton.mp new]
        exact ⟨link, linked, present⟩
    · exact sound.wired other packet listed
  · rcases flying with still | ⟨packet, listed, deliverable, same⟩
    · exact flows.frames other frame (.inl still)
    · rw [wire_setWire] at listed
      split at listed
      · rename_i here
        subst here
        rcases mem_append.mp listed with old | new
        · exact flows.frames other frame (.inr ⟨packet, old, deliverable, same⟩)
        · rw [mem_singleton.mp new] at same
          exact .inl (.inl (same ▸ held))
      · exact flows.frames other frame (.inr ⟨packet, listed, deliverable, same⟩)

theorem receive_quiet {next : Endpoint}
    {sink : Option (Except AureliaError Unit)}
    (sound : endpoint.dispatch.Invariant)
    (taken : endpoint.receive packet cancelled sink error sendQueueSize = some next)
    (New : OutboundFrame → Prop) :
    endpoint.Emits next New ∧ next.incarnation = endpoint.incarnation := by
  unfold Endpoint.receive at taken
  split at taken
  · obtain ⟨⟨output, result⟩, performed, rfl⟩ := map_eq_some_iff.mp taken
    have emits : endpoint.Emits result New :=
      Endpoint.perform_emits performed sound trivial (Endpoint.allowed_of_none rfl)
    obtain ⟨dispatch, _, rfl⟩ := Endpoint.perform_eq performed
    exact ⟨emits, rfl⟩
  · split at taken
    · have acts := Endpoint.internal_acts taken sound trivial (by simp) rfl New
      exact ⟨acts.emits, acts.quiet.incarnation⟩
    · cases taken
      exact ⟨.of_claims_subset sound rfl fun _ listed _ => listed, rfl⟩
  · rename_i message _
    cases taken
    have same := (endpoint.inbound.receiveMessage_received packet.callis packet.incarnation message
      cancelled sink sendQueueSize).dispatch_eq
    exact ⟨.of_claims_subset sound same fun _ listed _ => listed, rfl⟩

theorem receive_eq {sink : Option (Except AureliaError Unit)}
    (taken : net.receive side callis cancelled sink error sendQueueSize = some next) :
    ∃ packet after, net.lives side callis = true ∧ packet ∈ net.wire side.other ∧
      packet.callis = callis ∧
      (net.endpoint side).receive packet cancelled sink error sendQueueSize = some after ∧
      next = (net.setEndpoint side after).setWire side.other
        ((net.wire side.other).erase packet) := by
  unfold receive at taken
  split at taken
  · rename_i alive
    split at taken
    · cases taken
    · rename_i packet found
      obtain ⟨after, received, rfl⟩ := map_eq_some_iff.mp taken
      exact ⟨packet, after, alive, mem_of_find?_eq_some found,
        by simpa using find?_some found, received, rfl⟩
  · cases taken

/-- A callis is dialled, or its handshake goes on: no frame changes hands. -/
theorem flows_of_setLink {middle : Peering} {link : Link} (flows : Flows net middle label)
    (past : ∀ side, link.at side ≤ (middle.endpoint side).incarnation)
    (same : ∀ old, middle.links.lookup callis = some old → link.at = old.at) :
    Flows net (middle.setLink callis link) label := by
  have looked : ∀ known, (middle.setLink callis link).links.lookup known =
      if known = callis then some link else middle.links.lookup known :=
    fun known => HashMap.lookup_insert_eq ..
  refine ⟨⟨flows.sound.store, fun side packet listed => ?_, fun known found linked side => ?_⟩,
    fun side frame flying => ?_⟩
  · obtain ⟨old, linked, sender⟩ := flows.sound.wired side packet listed
    rw [looked]
    split
    · rename_i here
      exact ⟨link, rfl, (congrFun (same old (here ▸ linked)) side).trans sender⟩
    · exact ⟨old, linked, sender⟩
  · rw [looked] at linked
    split at linked
    · cases linked
      exact past side
    · exact flows.sound.past known found linked side
  · refine flows.frames side frame ?_
    rcases flying with held | ⟨packet, listed, deliverable, frame_eq⟩
    · exact .inl held
    · obtain ⟨old, linked, _⟩ := flows.sound.wired side packet listed
      exact .inr ⟨packet, listed, owns_setLink linked same side.other ▸ deliverable, frame_eq⟩

theorem dial_eq (taken : net.dial side callis = some next) :
    net.links.lookup callis = none ∧
      next = net.setLink callis ⟨side, (net.endpoint .left).incarnation,
        (net.endpoint .right).incarnation, (net.endpoint side).inbound.session.active,
        .offered⟩ := by
  unfold dial at taken
  split at taken
  · cases taken
  · rename_i unused
    cases taken
    exact ⟨by simpa using unused, rfl⟩

theorem dial_flows (sound : net.Sound) (taken : net.dial side callis = some next) :
    Flows net next (.dial side callis) := by
  obtain ⟨unused, rfl⟩ := dial_eq taken
  refine flows_of_setLink ⟨sound, fun _ _ flying => .inl flying⟩ (fun other => ?_) ?_
  · cases other <;> exact le_rfl
  · intro old linked
    cases unused.symm.trans linked

theorem hello_eq {input : HelloInput} (taken : net.hello side callis input = some next) :
    ∃ link task, net.links.lookup callis = some link ∧
      link.at side = (net.endpoint side).incarnation ∧
      helloSection (link.dials side) (net.endpoint side).inbound.session link.reconnect input
        link.phase = some task ∧
      next = (net.setEndpoint side ((net.endpoint side).greet (link.at side.other)
        ({ link with phase := task.phase }.live side) task)).setLink callis
          { link with phase := task.phase } := by
  simp only [hello, ite_none_right_eq_some, bind_eq_some_iff, map_eq_some_iff] at taken
  obtain ⟨owned, link, linked, task, advanced, rfl⟩ := taken
  obtain ⟨_, found, present⟩ := owns_iff.mp owned
  cases linked.symm.trans found
  exact ⟨link, task, linked, present, advanced, rfl⟩

theorem atPhase_of {link : Link} {test : HelloPhase → Bool}
    (linked : net.links.lookup callis = some link) (passes : test link.phase = true) :
    net.atPhase test callis = true := by
  simp [atPhase, linked, passes]

theorem hello_flows {input : HelloInput} (sound : net.Sound)
    (ordered : net.Ordered (.hello side callis input))
    (taken : net.hello side callis input = some next) :
    Flows net next (.hello side callis input) := by
  obtain ⟨link, task, linked, _, advanced, rfl⟩ := hello_eq taken
  obtain ⟨_, acts⟩ := Endpoint.greet_acts (sound.store side)
    (fun fails => ordered (atPhase_of linked fails)) advanced (link.at side.other)
    ({ link with phase := task.phase }.live side)
  have emits : (net.endpoint side).Emits ((net.endpoint side).greet (link.at side.other)
      ({ link with phase := task.phase }.live side) task) Endpoint.Nothing := by
    refine .after_quiet ?_ acts.emits
    exact fun _ held => held
  refine flows_of_setLink (flows_of_endpoint sound rfl emits rfl) (fun other => ?_) ?_
  · rw [endpoint_setEndpoint]
    split
    · rename_i here
      exact here ▸ sound.past callis link linked side
    · exact sound.past callis link linked other
  · intro old found
    cases linked.symm.trans found
    rfl

theorem owns_restart (sound : net.Sound) (side : Side)
    (capacities : RetainedCapacities) (now : Instant) (callis : CallisId) :
    (net.restart side capacities now).owns side callis = false := by
  have fresh : ((net.restart side capacities now).endpoint side).incarnation =
      (net.endpoint side).incarnation + 1 := by
    simp [restart, Endpoint.new]
  refine Bool.eq_false_iff.mpr fun owned => ?_
  obtain ⟨link, linked, present⟩ := owns_iff.mp owned
  have bound := sound.past callis link linked side
  rw [present, fresh] at bound
  omega

theorem restart_flows (sound : net.Sound) (side : Side)
    (capacities : RetainedCapacities) (now : Instant) :
    Flows net (net.restart side capacities now) (.restart side capacities now) := by
  have idle : ∀ frame, ¬ ((net.restart side capacities now).endpoint side).Holds frame := by
    rintro frame (⟨item, stored, _⟩ | ⟨_, listed, _⟩)
    · simp only [restart, endpoint_setEndpoint, if_pos] at stored
      exact RetainedStore.new_stores capacities now item stored
    · simp [restart, Endpoint.new] at listed
  refine ⟨sound.setEndpoint (new_invariant capacities now) (Nat.le_succ _),
    fun other frame flying => .inl ?_⟩
  rcases flying with held | ⟨packet, listed, deliverable, same⟩
  · by_cases here : other = side
    · exact absurd held (here ▸ idle frame)
    · simp only [restart, endpoint_setEndpoint, if_neg here] at held
      exact .inl held
  · refine .inr ⟨packet, listed, ?_, same⟩
    by_cases here : other.other = side
    · rw [here, owns_restart sound] at deliverable
      cases deliverable
    · rw [← deliverable]
      refine (owns_congr net (net.restart side capacities now) rfl ?_).symm
      simp only [restart, endpoint_setEndpoint, if_neg here]

theorem step_flows (sound : net.Sound)
    (ordered : net.Ordered label) (taken : net.step label = some next) : Flows net next label := by
  cases isQuiet : label.quiet with
  | true =>
    obtain ⟨after, rfl, acts⟩ := quiet_cases (sound.store label.actor) ordered isQuiet taken
    exact flows_of_endpoint sound rfl acts.emits acts.quiet.incarnation
  | false =>
    cases label with
    | put side index => exact put_flows sound taken
    | lose side callis keep =>
      cases taken
      refine flows_of_wire_subset ⟨sound, fun _ _ flying => .inl flying⟩ ?_
      exact fun _ kept => mem_of_mem_truncate kept
    | receive side callis cancelled sink error sendQueueSize =>
      obtain ⟨_, after, _, _, _, received, rfl⟩ := receive_eq taken
      obtain ⟨emits, incarnation⟩ := receive_quiet (sound.store side) received
        (Label.Brings (net.endpoint side)
          (.receive side callis cancelled sink error sendQueueSize))
      have flows : Flows net (net.setEndpoint side after)
          (.receive side callis cancelled sink error sendQueueSize) :=
        flows_of_endpoint sound rfl emits incarnation
      exact flows_of_wire_subset flows fun _ kept => mem_of_mem_erase kept
    | decide side token decision =>
      simp only [step] at taken
      obtain ⟨inbound, decided, rfl⟩ := inboundOf_eq taken
      exact flows_of_inbound sound rfl (congrArg _ (Inbound.decide_dispatch decided))
    | drain side index activation sendQueueSize =>
      simp only [step] at taken
      obtain ⟨inbound, drained, rfl⟩ := inboundOf_eq taken
      obtain ⟨_, _, drained⟩ := Inbound.drain_drained drained
      exact flows_of_inbound sound rfl (Inbound.drained_eq drained).2
    | cancel side index reason sendQueueSize =>
      simp only [step] at taken
      obtain ⟨inbound, cancelled, rfl⟩ := inboundOf_eq taken
      exact flows_of_inbound sound rfl (Inbound.cancel_eq cancelled).2
    | drop side index =>
      simp only [step] at taken
      obtain ⟨inbound, dropped, rfl⟩ := inboundOf_eq taken
      exact flows_of_inbound sound rfl (congrArg _ (Inbound.drop_dispatch dropped))
    | dial side callis => exact dial_flows sound taken
    | hello side callis input => exact hello_flows sound ordered taken
    | restart side capacities now =>
      cases taken
      exact restart_flows sound side capacities now
    | send | allocate | store | claim | written | forget | respond | close => cases isQuiet

theorem start_sound (capacities : RetainedCapacities) (now : Instant) :
    (start capacities now).Sound where
  store _ := new_invariant capacities now
  wired _ _ listed := by cases listed
  past callis link found := by
    simp only [start, AList.lookup_empty] at found
    cases found

end Peering

end AureliaPeering.Net
