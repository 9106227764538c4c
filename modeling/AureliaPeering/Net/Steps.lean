import AureliaPeering.Net.InFlight

/-!
What the steps of the two endpoints can do, in the form every invariant uses.

Most steps are quiet: they touch the sending half of one endpoint alone.  The others turn the
inbound half, move a frame, or join and replace processes.
-/

namespace AureliaPeering.Net

open Collections Store Session Option

variable {op : Op} {output : Output}

theorem successes_of_change {before after : Contents}
    (change : Change op output before after) (other : ∀ peerMsgId, op ≠ .ack peerMsgId) :
    successes output = [] := by
  have silent : output.completions = [] → successes output = [] := by
    intro none_completed
    rw [successes, none_completed, List.filterMap_nil]
  cases change with
  | kept none_completed | responded _ none_completed | cleared _ _ _ none_completed =>
    exact silent none_completed
  | accepted _ accepted => exact silent (by rw [accepted]; rfl)
  | @completed items _ result _ acknowledged _ effects =>
    rw [successes, effects, List.filterMap_eq_nil_iff]
    intro effect listed
    obtain ⟨item, _, of_item⟩ := List.mem_flatMap.mp listed
    cases item with
    | ack | error => cases of_item
    | tracked outbound =>
      rw [RetainedStore.itemEffects, List.mem_singleton] at of_item
      rw [of_item]
      cases result with
      | ok value =>
        obtain ⟨peerMsgId, same⟩ := acknowledged rfl
        exact absurd same (other peerMsgId)
      | error => rfl

structure Endpoint.Quiet (before after : Endpoint) : Prop where
  dedupe : after.inbound.session.dedupe = before.inbound.session.dedupe
  waiters : after.inbound.waiters = before.inbound.waiters
  deliveries : after.inbound.deliveries = before.inbound.deliveries
  duplicates : after.inbound.duplicates = before.inbound.duplicates
  outcomes : after.inbound.outcomes ⊆ before.inbound.outcomes
  incarnation : after.incarnation = before.incarnation
  peer : after.peer = before.peer
  heard : after.heard = before.heard
  succeeded : after.succeeded = before.succeeded

theorem Endpoint.Quiet.setSent (endpoint : Endpoint) (sent : Nat) :
    endpoint.Quiet { endpoint with sent := sent } :=
  ⟨rfl, rfl, rfl, rfl, List.Subset.refl _, rfl, rfl, rfl, rfl⟩

theorem Endpoint.Quiet.setClaims (endpoint : Endpoint) (claims : List Outstanding) :
    endpoint.Quiet { endpoint with claims := claims } :=
  ⟨rfl, rfl, rfl, rfl, List.Subset.refl _, rfl, rfl, rfl, rfl⟩

theorem Endpoint.Quiet.trans {before middle after : Endpoint} (first : before.Quiet middle)
    (second : middle.Quiet after) : before.Quiet after where
  dedupe := second.dedupe.trans first.dedupe
  waiters := second.waiters.trans first.waiters
  deliveries := second.deliveries.trans first.deliveries
  duplicates := second.duplicates.trans first.duplicates
  outcomes := List.Subset.trans second.outcomes first.outcomes
  incarnation := second.incarnation.trans first.incarnation
  peer := second.peer.trans first.peer
  heard := second.heard.trans first.heard
  succeeded := second.succeeded.trans first.succeeded

/-- The endpoint changes its sending half alone: it brings in frames that meet `New` and spends
`spent` ids. -/
structure Endpoint.Acts (before after : Endpoint) (New : OutboundFrame → Prop) (spent : Nat) :
    Prop where
  quiet : before.Quiet after
  emits : before.Emits after New
  sent : after.sent = before.sent + spent

/-- The endpoint with the dedupe state and the known process that a section of a handshake
leaves. -/
def Endpoint.meets (endpoint : Endpoint) (dedupe : DedupeState) (peer : Nat) : Endpoint :=
  { endpoint with
    inbound := endpoint.inbound.setDedupe dedupe
    peer := peer }

namespace Endpoint

variable {before middle endpoint next : Endpoint} {New : OutboundFrame → Prop} {spent : Nat}
  {payload : Bytes} {deadline now : Instant}

/-- A store operation other than an acknowledgement, after a change that emits nothing. -/
theorem Acts.performed (acts : before.Acts middle Nothing spent)
    (performed : middle.perform op = some (output, next)) (ordered : op.Ordered middle.dispatch)
    (other : ∀ peerMsgId, op ≠ .ack peerMsgId)
    (allowed : ∀ item, op.inserted = some item → New (itemFrame item)) :
    before.Acts next New spent := by
  have emits := perform_emits performed acts.emits.sound ordered allowed
  obtain ⟨dispatch, stepped, rfl⟩ := perform_eq performed
  have taken : Store.system.Step middle.dispatch (op, output) dispatch := ⟨ordered, stepped⟩
  refine ⟨acts.quiet.trans ⟨rfl, rfl, rfl, rfl, List.Subset.refl _, rfl, rfl, rfl, ?_⟩,
    .after_quiet ?_ emits, acts.sent⟩
  · rw [successes_of_change (Store.step_invariant acts.emits.sound taken).2 other, List.append_nil]
  · exact fun frame held => (acts.emits.holds frame held).resolve_right id

variable (sound : endpoint.dispatch.Invariant)

include sound

theorem Acts.refl : endpoint.Acts endpoint New 0 :=
  ⟨.setSent _ _, .of_claims_subset sound rfl fun _ listed _ => listed, rfl⟩

theorem Acts.spend : endpoint.Acts { endpoint with sent := endpoint.sent + 1 } New 1 :=
  ⟨.setSent _ _, .of_claims_subset sound rfl fun _ listed _ => listed, rfl⟩

theorem Acts.forget (index : Nat) :
    endpoint.Acts { endpoint with claims := endpoint.claims.eraseIdx index } New 0 :=
  ⟨.setClaims _ _,
    .of_claims_subset sound rfl fun _ listed _ => List.mem_of_mem_eraseIdx listed, rfl⟩

theorem send_acts {srcTaberna dstTaberna : TabernaId} {msgType : MessageType} {flags : Nat}
    {ackTx : AckSender}
    (taken : endpoint.send srcTaberna dstTaberna msgType flags payload ackTx deadline now =
      some next) : endpoint.Acts next endpoint.NextMessage 1 := by
  unfold send at taken
  split at taken
  · cases taken
  · obtain ⟨⟨output, _⟩, performed, rfl⟩ := map_eq_some_iff.mp taken
    refine (Acts.spend sound).performed performed trivial (by simp) ?_
    rintro _ ⟨⟩
    exact ⟨_, rfl, rfl⟩

theorem claim_acts {callis : CallisId} (taken : endpoint.claim callis = some next)
    (New : OutboundFrame → Prop) : endpoint.Acts next New 0 := by
  unfold claim at taken
  split at taken
  · rename_i claimed result performed
    cases taken
    have acts : endpoint.Acts result Nothing 0 :=
      (Acts.refl sound).performed performed trivial (by simp) (allowed_of_none rfl)
    obtain ⟨_, stepped, rfl⟩ := perform_eq performed
    obtain ⟨item, stored, same⟩ := stores_of_claim sound stepped
    refine ⟨acts.quiet.trans (.setClaims _ _),
      ⟨acts.emits.sound, fun frame held => .inl ?_⟩, rfl⟩
    rcases held with held | ⟨outstanding, listed, unwritten, frame_eq⟩
    · exact (acts.emits.holds frame (.inl held)).resolve_right id
    · rcases List.mem_append.mp listed with old | here
      · exact .inr ⟨outstanding, old, unwritten, frame_eq⟩
      · rw [List.mem_singleton.mp here] at frame_eq
        exact .inl ⟨item, stored, (claimToFrame_of_item same).symm.trans frame_eq⟩
  · cases taken

theorem written_acts {index : Nat} {result : Except AureliaError Unit}
    (taken : endpoint.written index result = some next) (New : OutboundFrame → Prop) :
    endpoint.Acts next New 0 := by
  unfold written at taken
  split at taken
  · cases taken
  · split at taken
    · cases taken
    · obtain ⟨⟨output, _⟩, performed, rfl⟩ := map_eq_some_iff.mp taken
      exact (Acts.forget sound index).performed performed trivial (by simp) (allowed_of_none rfl)

theorem respond_acts (taken : endpoint.respond payload deadline now = some next) :
    endpoint.Acts next endpoint.FirstResponse 0 := by
  unfold respond at taken
  split at taken
  · cases taken
  · rename_i outcome rest first
    have shorter : ∀ {New : OutboundFrame → Prop}, endpoint.Acts
        (endpoint.setInbound { endpoint.inbound with outcomes := rest }) New 0 :=
      ⟨⟨rfl, rfl, rfl, rfl, by simp [setInbound, first], rfl, rfl, rfl, rfl⟩,
        .of_claims_subset sound rfl fun _ listed _ => listed, rfl⟩
    cases outcome with
    | ack peerMsgId =>
      obtain ⟨⟨output, _⟩, performed, rfl⟩ := map_eq_some_iff.mp taken
      refine shorter.performed performed trivial (by simp) ?_
      rintro _ ⟨⟩
      exact ⟨_, rest, first, rfl⟩
    | error peerMsgId error =>
      obtain ⟨⟨output, _⟩, performed, rfl⟩ := map_eq_some_iff.mp taken
      refine shorter.performed performed trivial (by simp) ?_
      rintro _ ⟨⟩
      exact ⟨_, rest, first, payload, rfl⟩
    | skip =>
      cases taken
      exact shorter

omit sound

theorem internal_acts (taken : (endpoint.perform op).map Prod.snd = some next)
    (sound : endpoint.dispatch.Invariant) (ordered : op.Ordered endpoint.dispatch)
    (other : ∀ peerMsgId, op ≠ .ack peerMsgId) (none_inserted : op.inserted = none)
    (New : OutboundFrame → Prop) : endpoint.Acts next New 0 := by
  obtain ⟨⟨output, _⟩, performed, rfl⟩ := map_eq_some_iff.mp taken
  exact (Acts.refl sound).performed performed ordered other (allowed_of_none none_inserted)

theorem handleClose_acts {order : List SlotId}
    (sound : endpoint.dispatch.Invariant) (ordered : endpoint.dispatch.tracked.ValueOrder order)
    (taken : Peering.handleClose order endpoint = some next) (New : OutboundFrame → Prop) :
    endpoint.Acts next New 0 := by
  obtain ⟨⟨output, _⟩, performed, rfl⟩ := map_eq_some_iff.mp taken
  have closed : endpoint.Acts (endpoint.setInbound { endpoint.inbound with
      session := { endpoint.inbound.session with closing := true } }) Nothing 0 :=
    ⟨⟨rfl, rfl, rfl, rfl, List.Subset.refl _, rfl, rfl, rfl, rfl⟩,
      .of_claims_subset sound rfl fun _ listed _ => listed, rfl⟩
  exact closed.performed performed ordered (by simp) (allowed_of_none rfl)

theorem greet_acts_of_silent {task : HelloTask} (sound : endpoint.dispatch.Invariant)
    (silent : task.effects = []) (dispatch : task.session.dispatch = endpoint.dispatch)
    (peer : Nat) (live : Bool) :
    (endpoint.meets task.session.dedupe (if live then max endpoint.peer peer else
      endpoint.peer)).Acts (endpoint.greet peer live task) Nothing 0 := by
  refine ⟨⟨rfl, rfl, rfl, rfl, List.Subset.refl _, rfl, rfl, rfl, ?_⟩,
    .of_claims_subset sound dispatch fun _ listed _ => listed, rfl⟩
  simp [greet, meets, silent, successes, Output.completions]

/-- A section of a handshake leaves the dedupe state or empties it, and otherwise changes the
sending half alone. -/
theorem greet_acts {dials reconnect : Bool} {input : HelloInput} {phase : HelloPhase}
    {task : HelloTask} (sound : endpoint.dispatch.Invariant)
    (ordered : phase.fails = true → endpoint.dispatch.tracked.ValueOrder input.order)
    (taken : helloSection dials endpoint.inbound.session reconnect input phase = some task)
    (peer : Nat) (live : Bool) :
    (task.session.dedupe = endpoint.inbound.session.dedupe ∨
      (phase.clears = true ∧ task.session.dedupe = .new)) ∧
    (endpoint.meets task.session.dedupe (if live then max endpoint.peer peer else
      endpoint.peer)).Acts (endpoint.greet peer live task) Nothing 0 := by
  rcases helloSection_cases taken with
    ⟨fails, failed⟩ | ⟨clears, silent, cleared⟩ | ⟨silent, active, same⟩
  · obtain ⟨effects, session⟩ := Prod.mk.inj failed
    have performed : (endpoint.meets task.session.dedupe (if live then max endpoint.peer peer
        else endpoint.peer)).perform (.failAll (.new .peerRestarted) input.order) =
          some (.effects task.effects, endpoint.greet peer live task) := by
      simp only [greet, session, effects]
      rfl
    refine ⟨.inl (by rw [session]), ?_⟩
    refine Acts.performed (.refl ?_) performed (ordered fails) (by simp) (allowed_of_none rfl)
    exact sound
  · exact ⟨.inr ⟨clears, by rw [cleared]; rfl⟩,
      greet_acts_of_silent sound silent (by rw [cleared]; rfl) peer live⟩
  · exact ⟨.inl (by rw [same]; rfl),
      greet_acts_of_silent sound silent (by rw [same]; rfl) peer live⟩

end Endpoint

def Label.actor : Label → Side
  | .send side .. | .allocate side | .store side _ | .claim side _ | .put side _
  | .written side .. | .forget side _ | .lose side .. | .receive side .. | .decide side ..
  | .drain side .. | .cancel side .. | .drop side _ | .respond side .. | .close side _
  | .dial side _ | .hello side .. | .restart side .. => side

def Label.quiet : Label → Bool
  | .send .. | .allocate _ | .store .. | .claim .. | .written .. | .forget .. | .respond ..
  | .close .. => true
  | _ => false

def Label.spends : Label → Nat
  | .send .. | .allocate _ => 1
  | _ => 0

def Label.Brings (endpoint : Endpoint) : Label → OutboundFrame → Prop
  | .send .. => endpoint.NextMessage
  | .respond .. => endpoint.FirstResponse
  | _ => Endpoint.Nothing

namespace Peering

variable {net : Peering}

@[simp]
theorem endpoint_setEndpoint (net : Peering) (side other : Side) (endpoint : Endpoint) :
    (net.setEndpoint side endpoint).endpoint other =
      if other = side then endpoint else net.endpoint other := by
  simp [setEndpoint, Function.update_apply]

@[simp]
theorem wire_setWire (net : Peering) (side other : Side) (packets : List Packet) :
    (net.setWire side packets).wire other = if other = side then packets else net.wire other := by
  simp [setWire, Function.update_apply]

@[simp]
theorem wire_setEndpoint (net : Peering) (side : Side) (endpoint : Endpoint) :
    (net.setEndpoint side endpoint).wire = net.wire := rfl

@[simp]
theorem endpoint_setWire (net : Peering) (side : Side) (packets : List Packet) :
    (net.setWire side packets).endpoint = net.endpoint := rfl

theorem locally_eq {next : Peering} {side : Side} {change : Endpoint → Option Endpoint}
    (taken : net.locally side change = some next) :
    ∃ after, change (net.endpoint side) = some after ∧ next = net.setEndpoint side after := by
  obtain ⟨after, changed, rfl⟩ := map_eq_some_iff.mp taken
  exact ⟨after, changed, rfl⟩

theorem inboundOf_eq {next : Peering} {side : Side} {change : Inbound → Option Inbound}
    (taken : net.locally side (inboundOf change) = some next) :
    ∃ inbound, change (net.endpoint side).inbound = some inbound ∧
      next = net.setEndpoint side ((net.endpoint side).setInbound inbound) := by
  obtain ⟨_, changed, rfl⟩ := locally_eq taken
  obtain ⟨inbound, turned, rfl⟩ := map_eq_some_iff.mp changed
  exact ⟨inbound, turned, rfl⟩

/-- The quiet steps: one endpoint changes its sending half, and only an allocation spends an id. -/
theorem quiet_cases {next : Peering} {label : Label}
    (sound : (net.endpoint label.actor).dispatch.Invariant) (ordered : net.Ordered label)
    (isQuiet : label.quiet = true) (taken : net.step label = some next) :
    ∃ after, next = net.setEndpoint label.actor after ∧
      (net.endpoint label.actor).Acts after (label.Brings (net.endpoint label.actor))
        label.spends := by
  cases label with
  | send side =>
    simp only [step] at taken
    obtain ⟨after, changed, rfl⟩ := locally_eq taken
    exact ⟨after, rfl, Endpoint.send_acts sound changed⟩
  | allocate side =>
    simp only [step] at taken
    obtain ⟨after, changed, rfl⟩ := locally_eq taken
    cases changed
    exact ⟨_, rfl, .spend sound⟩
  | store side op =>
    simp only [step, ite_none_right_eq_some] at taken
    obtain ⟨allowed, taken⟩ := taken
    obtain ⟨after, changed, rfl⟩ := locally_eq taken
    have other : ∀ peerMsgId, op ≠ .ack peerMsgId := by
      rintro peerMsgId rfl
      cases allowed
    exact ⟨after, rfl, Endpoint.internal_acts changed sound ordered other
      (Endpoint.inserted_of_internal allowed) _⟩
  | claim side callis =>
    simp only [step, ite_none_right_eq_some] at taken
    obtain ⟨after, changed, rfl⟩ := locally_eq taken.2
    exact ⟨after, rfl, Endpoint.claim_acts sound changed _⟩
  | written side index result =>
    simp only [step] at taken
    obtain ⟨after, changed, rfl⟩ := locally_eq taken
    exact ⟨after, rfl, Endpoint.written_acts sound changed _⟩
  | forget side index =>
    simp only [step] at taken
    obtain ⟨after, changed, rfl⟩ := locally_eq taken
    cases changed
    exact ⟨_, rfl, .forget sound index⟩
  | respond side payload deadline now =>
    simp only [step] at taken
    obtain ⟨after, changed, rfl⟩ := locally_eq taken
    exact ⟨after, rfl, Endpoint.respond_acts sound changed⟩
  | close side order =>
    simp only [step] at taken
    obtain ⟨after, changed, rfl⟩ := locally_eq taken
    exact ⟨after, rfl, Endpoint.handleClose_acts sound ordered changed _⟩
  | put | lose | receive | decide | drain | cancel | drop | dial | hello | restart => cases isQuiet

end Peering

end AureliaPeering.Net
