import AureliaPeering.Net.Answers

/-!
What a successful send means across restarts.

Ids start again from 0 with every process, and the answers that a surviving process retains are
sent to whatever process it meets next.  So a success vouches for an accepted message of the same
id, of this process or of an earlier one.  It vouches for the very message in the runs in which no
answer to an old process is outstanding when it is replaced, and in which the dedupe history is
empty when the first callis of a new process comes to life.
-/

namespace AureliaPeering.Net

open Collections Store Session Option

namespace Peering

variable {net next : Peering} {label : Label} {side : Side}

variable {after endpoint : Endpoint} {peer : Nat}

theorem turn_incarnation (turn : Turn net label side after) :
    after.incarnation = (net.endpoint side).incarnation ∨
      (∃ capacities now, label = .restart side capacities now) ∧
        after.incarnation = (net.endpoint side).incarnation + 1 := by
  cases turn with
  | quiet quiet _ | acked _ _ _ quiet _ | greeted _ _ _ _ quiet _ => exact .inl quiet.incarnation
  | heard | decided | drained | cancelled | dropped => exact .inl rfl
  | @restarted capacities now label_eq =>
    refine .inr ⟨⟨capacities, now, label_eq⟩, ?_⟩
    rw [restart_endpoint]
    rfl

/-- A callis of a process that is not known yet comes to life only where the dedupe history is
empty. -/
def Cleared (net : Peering) : Label → Prop
  | .hello side callis _ =>
    ∀ link, net.links.lookup callis = some link → link.phase.joins = true →
      (net.endpoint side).peer < link.at side.other →
      (net.endpoint side).inbound.session.dedupe.set = ∅
  | _ => True

/-- The known process stays, or a later one takes its place and the history is empty. -/
theorem turn_peer (sound : net.Sound) (cleared : net.Cleared label)
    (turn : Turn net label side after)
    (other : ∀ capacities now, label ≠ .restart side capacities now) :
    after.peer = (net.endpoint side).peer ∨
      ((net.endpoint side).peer ≤ after.peer ∧
        after.peer ≤ (net.endpoint side.other).incarnation ∧
        after.inbound.session.dedupe.set = ∅) := by
  cases turn with
  | quiet quiet _ | acked _ _ _ quiet _ => exact .inl quiet.peer
  | @greeted _ callis link _ _ _ label_eq linked dedupe peer quiet _ =>
    subst label_eq
    rcases peer with same | ⟨joins, later⟩
    · exact .inl (quiet.peer.trans same)
    · by_cases known : link.at side.other ≤ (net.endpoint side).peer
      · exact .inl (quiet.peer.trans (later.trans (max_eq_left known)))
      · have unknown := Nat.lt_of_not_le known
        have empty := cleared link linked joins unknown
        have peer_eq : after.peer = link.at side.other :=
          quiet.peer.trans (later.trans (max_eq_right unknown.le))
        refine .inr ⟨peer_eq ▸ unknown.le, peer_eq ▸ sound.past callis link linked side.other, ?_⟩
        rw [quiet.dedupe]
        rcases dedupe with rfl | ⟨_, rfl⟩
        · exact empty
        · rfl
  | heard | decided | drained | cancelled | dropped => exact .inl rfl
  | restarted label_eq => exact absurd label_eq (other _ _)

/-- What a step makes of the callis and of what is on the way. -/
structure Frame (net : Peering) (label : Label) (next : Peering) : Prop where
  links : next.links = net.links ∨ (∃ side callis, label = .dial side callis) ∨
    ∃ side callis input, label = .hello side callis input
  kept : ∀ callis link, net.links.lookup callis = some link →
    ∃ later, next.links.lookup callis = some later ∧ later.at = link.at
  wire : ∀ side, ∀ packet ∈ next.wire side, packet ∈ net.wire side ∨
    packet.incarnation = (net.endpoint side).incarnation

theorem kept_of_setLink {callis known : CallisId} {link old : Link}
    (same : ∀ old, net.links.lookup callis = some old → link.at = old.at)
    (linked : net.links.lookup known = some old) :
    ∃ later, (net.setLink callis link).links.lookup known = some later ∧ later.at = old.at := by
  simp only [setLink, HashMap.lookup_insert_eq]
  split
  · rename_i here
    exact ⟨link, rfl, same old (here ▸ linked)⟩
  · exact ⟨old, linked, rfl⟩

theorem frame_of_step (sound : net.Sound) (ordered : net.Ordered label)
    (stepped : net.step label = some next) : Frame net label next := by
  have same {after : Peering} (links : after.links = net.links)
      (wire : ∀ side, after.wire side ⊆ net.wire side) : Frame net label after :=
    ⟨.inl links, fun _ link linked => ⟨link, links ▸ linked, rfl⟩,
      fun side _ listed => .inl (wire side listed)⟩
  cases isQuiet : label.quiet with
  | true =>
    obtain ⟨after, rfl, _⟩ := quiet_cases (sound.store label.actor) ordered isQuiet stepped
    exact same rfl fun _ => List.Subset.refl _
  | false =>
    cases label with
    | put actor index =>
      obtain ⟨_, _, _, _, rfl⟩ := put_eq stepped
      refine ⟨.inl rfl, fun _ link linked => ⟨link, linked, rfl⟩, fun side packet listed => ?_⟩
      rw [wire_setWire] at listed
      split at listed
      · rename_i here
        subst here
        rcases List.mem_append.mp listed with old | new
        · exact .inl old
        · exact .inr (List.mem_singleton.mp new ▸ rfl)
      · exact .inl listed
    | lose actor callis keep =>
      cases stepped
      exact same rfl fun side packet listed =>
        mem_of_mem_setWire (fun _ kept => mem_of_mem_truncate kept) listed
    | receive actor callis cancelled sink error sendQueueSize =>
      obtain ⟨_, after, _, _, _, _, rfl⟩ := receive_eq stepped
      exact same rfl fun side packet listed =>
        mem_of_mem_setWire (fun _ kept => List.mem_of_mem_erase kept) listed
    | decide | drain | cancel | drop =>
      simp only [Peering.step] at stepped
      obtain ⟨after, _, rfl⟩ := locally_eq stepped
      exact same rfl fun _ => List.Subset.refl _
    | dial actor callis =>
      obtain ⟨unused, rfl⟩ := dial_eq stepped
      refine ⟨.inr (.inl ⟨actor, callis, rfl⟩), fun known link linked => ?_,
        fun _ _ listed => .inl listed⟩
      exact kept_of_setLink (fun old found => by cases unused.symm.trans found) linked
    | hello actor callis input =>
      obtain ⟨link, task, linked, _, _, rfl⟩ := hello_eq stepped
      refine ⟨.inr (.inr ⟨actor, callis, input, rfl⟩), fun known old found => ?_,
        fun _ _ listed => .inl listed⟩
      refine kept_of_setLink (fun before looked => ?_) found
      cases linked.symm.trans looked
      rfl
    | restart actor capacities now =>
      cases stepped
      exact same rfl fun _ => List.Subset.refl _
    | send | allocate | store | claim | written | forget | respond | close => cases isQuiet

theorem Sound.dated (sound : net.Sound) {packet : Packet} (listed : packet ∈ net.wire side) :
    packet.incarnation ≤ (net.endpoint side).incarnation := by
  obtain ⟨link, linked, sender⟩ := sound.wired side packet listed
  exact sender ▸ sound.past packet.callis link linked side

/-- Along every run answers go back to messages of this or an earlier process. -/
structure Honest (net : Peering) : Prop where
  sound : net.Sound
  traced : ∀ side, net.Traced side (· ≤ (net.endpoint side.other).incarnation) True

theorem incarnation_le (sound : net.Sound) (ordered : net.Ordered label)
    (stepped : net.step label = some next) (side : Side) :
    (net.endpoint side).incarnation ≤ (next.endpoint side).incarnation := by
  rcases turn_incarnation (step_turn sound ordered stepped side) with same | ⟨_, later⟩
  · exact same.ge
  · exact later ▸ Nat.le_succ _

theorem Honest.step (inv : net.Honest) (taken : system.Step net label next) : next.Honest := by
  obtain ⟨ordered, stepped⟩ := taken
  have later := incarnation_le inv.sound ordered stepped
  have flows := step_flows inv.sound ordered stepped
  refine ⟨flows.sound, fun side => ?_⟩
  exact ((inv.traced side).mono fun _ earlier => earlier.trans (later side.other)).step
    inv.sound ordered stepped (fun _ _ _ _ => trivial) (fun _ => .inl trivial)
    fun packet message coming _ => flows.sound.dated coming.1

theorem start_traced (capacities : RetainedCapacities) (now : Instant) (side : Side)
    (From : Nat → Prop) (Current : Prop) :
    (start capacities now).Traced side From Current where
  vouched :=
    { heard := by simp [start, Endpoint.new]
      owned := by simp [start, Endpoint.new]
      activated := by simp [start, Endpoint.new]
      joined := by simp [start, Endpoint.new]
      waiting := by simp [start, Endpoint.new, PeerSession.new, DedupeState.waiters]
      recorded := by simp [start, Endpoint.new, PeerSession.new]
      acks := by simp [start, Endpoint.new]
      answers := by simp [start, Endpoint.new] }
  flying frame peerMsgId flying _ := by
    obtain (⟨item, stored, _⟩ | ⟨outstanding, listed, _⟩) | ⟨packet, listed, _⟩ := flying
    · exact absurd stored (RetainedStore.new_stores capacities now item)
    · cases listed
    · cases listed
  succeeded peerMsgId listed := by cases listed
  underway packet message coming _ := by cases coming.1

theorem reachable_honest (reached : system.Reachable net) : net.Honest :=
  reached.invariant
    (by
      rintro _ ⟨capacities, now, rfl⟩
      exact ⟨start_sound capacities now, fun side => start_traced capacities now side _ True⟩)
    (fun _ _ _ inv taken => inv.step taken)

/-- Nothing that `side` holds, and no message that may reach it, speaks of the present process of
the other side. -/
structure Idle (net : Peering) (side : Side) : Prop where
  waiters : (net.endpoint side).inbound.waiters = []
  outcomes : (net.endpoint side).inbound.outcomes = []
  responses : ∀ frame, (frameAnswer frame).isSome = true → ¬ (net.endpoint side).Holds frame
  messages : ∀ packet message, net.Underway side packet → packet.frame ≠ .message message

/-- A process is replaced only when the other side is done with its messages. -/
def Settled (net : Peering) (label : Label) : Prop :=
  ∀ side capacities now, label = .restart side capacities now → net.Idle side.other

/-- Along the settled runs: where a callis is alive, the process at its other end is known, and
answers go back to messages of the present process. -/
structure Faithful (net : Peering) : Prop where
  sound : net.Sound
  past : ∀ side, (net.endpoint side).peer ≤ (net.endpoint side.other).incarnation
  joined : ∀ side callis link, net.links.lookup callis = some link →
    link.at side = (net.endpoint side).incarnation → link.live side = true →
    link.at side.other ≤ (net.endpoint side).peer
  traced : ∀ side, net.Traced side (· = (net.endpoint side.other).incarnation)
    ((net.endpoint side).peer = (net.endpoint side.other).incarnation)

/-- A message that may be received now is from a process that is known. -/
theorem Faithful.known_of_arrives (inv : net.Faithful) {packet : Packet} {message : PeerMessage}
    (arriving : net.Arrives side packet) (frame : packet.frame = .message message) :
    (net.endpoint side).peer = (net.endpoint side.other).incarnation := by
  obtain ⟨link, linked, present, live⟩ := lives_iff.mp arriving.2
  obtain ⟨_, found, sender⟩ := inv.sound.wired side.other packet arriving.1
  cases linked.symm.trans found
  have sent : packet.incarnation = (net.endpoint side.other).incarnation :=
    (inv.traced side).underway packet message ⟨arriving.1, owns_of_lives arriving.2⟩ frame
  have known := inv.joined side packet.callis link linked present live
  rw [sender, sent] at known
  exact le_antisymm (inv.past side) known

structure Stays (net next : Peering) : Prop where
  incarnation : ∀ side, (next.endpoint side).incarnation = (net.endpoint side).incarnation
  owns : ∀ side callis link, net.links.lookup callis = some link →
    next.owns side callis = net.owns side callis

theorem stays_of_step (sound : net.Sound) (ordered : net.Ordered label)
    (stepped : net.step label = some next)
    (other : ∀ side capacities now, label ≠ .restart side capacities now) : Stays net next := by
  have incarnation : ∀ side,
      (next.endpoint side).incarnation = (net.endpoint side).incarnation := by
    intro side
    rcases turn_incarnation (step_turn sound ordered stepped side) with same | ⟨⟨_, _, same⟩, _⟩
    · exact same
    · exact absurd same (other _ _ _)
  refine ⟨incarnation, fun side callis link linked => ?_⟩
  obtain ⟨later, found, same⟩ := (frame_of_step sound ordered stepped).kept callis link linked
  rw [Bool.eq_iff_iff, owns_iff, owns_iff]
  simp [linked, found, same, incarnation]

theorem Link.dials_other (link : Link) (side : Side) :
    link.dials side.other = !link.dials side := by
  cases dialler : link.dialler <;> cases side <;> simp [Link.dials, dialler, Side.other]

theorem Faithful.joined_step (inv : net.Faithful) (stays : Stays net next)
    (ordered : net.Ordered label) (stepped : net.step label = some next)
    (later : ∀ side, (net.endpoint side).peer ≤ (next.endpoint side).peer) (side : Side)
    (callis : CallisId) (link : Link) (linked : next.links.lookup callis = some link)
    (present : link.at side = (next.endpoint side).incarnation) (live : link.live side = true) :
    link.at side.other ≤ (next.endpoint side).peer := by
  rw [stays.incarnation] at present
  have old : ∀ {known : Link}, net.links.lookup callis = some known → known.at = link.at →
      known.live side = true → link.at side.other ≤ (next.endpoint side).peer := by
    intro known found same was_live
    have joined := inv.joined side callis known found (same ▸ present) was_live
    exact (same ▸ joined).trans (later side)
  rcases (frame_of_step inv.sound ordered stepped).links with
    same | ⟨actor, dialled, rfl⟩ | ⟨actor, advanced, input, rfl⟩
  · exact old (same ▸ linked) rfl live
  · obtain ⟨_, rfl⟩ := dial_eq stepped
    simp only [setLink, HashMap.lookup_insert_eq] at linked
    split at linked
    · cases linked
      cases live
    · exact old linked rfl live
  · obtain ⟨before, task, found, _, section_eq, rfl⟩ := hello_eq stepped
    simp only [setLink, setEndpoint, HashMap.lookup_insert_eq] at linked
    split at linked
    · rename_i here
      subst here
      cases linked
      rcases side.eq_or_eq_other actor with rfl | rfl
      · simp only [setLink, endpoint_setEndpoint, if_pos, Endpoint.greet, live]
        exact le_max_right ..
      · -- The section was taken at the other end.
        refine old found rfl ?_
        rw [Link.live, Link.dials_other] at live ⊢
        exact (helloSection_live section_eq).2 live
    · exact old linked rfl live

theorem Faithful.step_stays (inv : net.Faithful) (ordered : net.Ordered label)
    (stepped : net.step label = some next) (cleared : net.Cleared label)
    (other : ∀ side capacities now, label ≠ .restart side capacities now) : next.Faithful := by
  have stays := stays_of_step inv.sound ordered stepped other
  have flows := step_flows inv.sound ordered stepped
  have peer := fun side => turn_peer inv.sound cleared (step_turn inv.sound ordered stepped side)
    (other side)
  refine ⟨flows.sound, fun side => ?_,
    inv.joined_step stays ordered stepped fun side => ?_, fun side => ?_⟩
  · rw [stays.incarnation]
    rcases peer side with kept | ⟨_, bound, _⟩
    · exact kept ▸ inv.past side
    · exact bound
  · rcases peer side with kept | ⟨later, _⟩
    · exact kept.ge
    · exact later
  · rw [stays.incarnation]
    refine (inv.traced side).step inv.sound ordered stepped
      (fun packet message arriving frame => inv.known_of_arrives arriving frame)
      (fun holds => ?_) fun packet message coming frame => ?_
    · rcases peer side with kept | ⟨_, _, empty⟩
      · exact .inl (kept ▸ holds)
      · exact .inr empty
    · rcases (frame_of_step inv.sound ordered stepped).wire _ _ coming.1 with old | present
      · obtain ⟨link, linked, _⟩ := inv.sound.wired side.other packet old
        refine (inv.traced side).underway packet message ⟨old, ?_⟩ frame
        exact stays.owns side packet.callis link linked ▸ coming.2
      · exact present

theorem Faithful.restart (inv : net.Faithful) (side : Side) (capacities : RetainedCapacities)
    (now : Instant) (idle : net.Idle side.other) :
    (net.restart side capacities now).Faithful := by
  have survivor : (net.restart side capacities now).endpoint side.other =
      net.endpoint side.other := by
    simp only [Peering.restart, endpoint_setEndpoint, if_neg side.other_ne]
  have ordered : net.Ordered (.restart side capacities now) := trivial
  have stepped : net.step (.restart side capacities now) =
      some (net.restart side capacities now) := rfl
  have fresh : ((net.restart side capacities now).endpoint side).incarnation =
      (net.endpoint side).incarnation + 1 := by
    rw [restart_endpoint]
    rfl
  have met : ((net.restart side capacities now).endpoint side).peer =
      (net.endpoint side.other).incarnation := by
    rw [restart_endpoint]
    rfl
  have unowned := owns_restart inv.sound side capacities now
  have replaced : (net.restart side capacities now).Traced side
      (· = (net.endpoint side.other).incarnation)
      (((net.restart side capacities now).endpoint side).peer =
        (net.endpoint side.other).incarnation) := by
    refine (inv.traced side).step inv.sound ordered stepped
      (fun packet message arriving frame => inv.known_of_arrives arriving frame)
      (fun _ => .inr (by rw [restart_endpoint]; rfl)) fun packet message coming _ => ?_
    have owned := coming.2
    rw [unowned] at owned
    cases owned
  have carried : (net.restart side capacities now).Traced side.other
      (· = (net.endpoint side).incarnation + 1)
      ((net.endpoint side.other).peer = (net.endpoint side).incarnation + 1) := by
    have waiting := (inv.traced side.other).vouched.waiting
    refine ⟨?_, ?_, ?_, ?_⟩
    · rw [survivor]
      refine ⟨?_, ?_, ?_, ?_, waiting, ?_, ?_, ?_⟩
      · simp [idle.waiters]
      · simp [idle.waiters]
      · simp [idle.waiters]
      · simp [idle.waiters]
      · intro ahead
        have behind := inv.past side.other
        rw [Side.other_other] at behind
        omega
      · simp [idle.outcomes]
      · simp [idle.outcomes]
    · rintro frame peerMsgId (held | ⟨packet, _, deliverable, _⟩) answer
      · rw [survivor] at held
        exact absurd held (idle.responses frame (by rw [answer]; rfl))
      · rw [Side.other_other, unowned] at deliverable
        cases deliverable
    · intro peerMsgId listed
      rw [Side.other_other, restart_endpoint] at listed
      cases listed
    · intro packet message coming frame
      have before : net.Underway side.other packet := by
        refine ⟨coming.1, (owns_congr net (net.restart side capacities now) rfl ?_).symm.trans
          coming.2⟩
        rw [survivor]
      exact absurd frame (idle.messages packet message before)
  refine ⟨(step_flows inv.sound ordered stepped).sound, fun end_ => ?_,
    fun end_ callis link linked present live => ?_, fun end_ => ?_⟩
  · rcases end_.eq_or_eq_other side with rfl | rfl
    · rw [met, survivor]
    · rw [survivor, Side.other_other, fresh]
      have behind := inv.past side.other
      rw [Side.other_other] at behind
      exact behind.trans (Nat.le_succ _)
  · rcases end_.eq_or_eq_other side with rfl | rfl
    · have impossible := unowned callis
      rw [owns_iff.mpr ⟨link, linked, present⟩] at impossible
      cases impossible
    · rw [survivor] at present ⊢
      exact inv.joined side.other callis link linked present live
  · rcases end_.eq_or_eq_other side with rfl | rfl
    · rw [survivor]
      exact replaced
    · rw [Side.other_other, survivor, fresh]
      exact carried

/-- The runs in which the history is empty at each new process and each restart finds the other
side done with its messages. -/
def settledRuns : Machine.System Peering Label :=
  system.restrict fun net label => net.Cleared label ∧ net.Settled label

theorem settled_faithful (reached : settledRuns.Reachable net) : net.Faithful :=
  reached.invariant
    (by
      rintro _ ⟨capacities, now, rfl⟩
      refine ⟨start_sound capacities now, fun _ => le_rfl, fun _ _ _ linked => ?_,
        fun side => start_traced capacities now side _ _⟩
      cases linked)
    (by
      rintro _ label _ inv ⟨⟨ordered, stepped⟩, cleared, settled⟩
      by_cases replaced : ∃ side capacities now, label = .restart side capacities now
      · obtain ⟨side, capacities, now, rfl⟩ := replaced
        cases stepped
        exact inv.restart side capacities now (settled side capacities now rfl)
      · exact inv.step_stays ordered stepped cleared fun side capacities now same =>
          replaced ⟨side, capacities, now, same⟩)

theorem hello_stores {actor : Side} {callis : CallisId} {input : HelloInput} (sound : net.Sound)
    (ordered : net.Ordered (.hello actor callis input))
    (taken : net.hello actor callis input = some next) {item : RetainedItem}
    (response : item.isTracked = false) (stored : (net.endpoint side).dispatch.Stores item) :
    (next.endpoint side).dispatch.Stores item := by
  obtain ⟨link, task, linked, _, advanced, rfl⟩ := hello_eq taken
  simp only [setLink, endpoint_setEndpoint]
  split
  · rename_i here
    subst here
    rcases helloSection_cases advanced with ⟨fails, failed⟩ | ⟨_, _, same⟩ | ⟨_, _, same⟩
    · have session : task.session.dispatch = _ := congrArg PeerSession.dispatch
        (Prod.mk.inj failed).2
      rw [Endpoint.dispatch, Endpoint.greet, session]
      exact RetainedStore.failAll_stores (sound.store side) (.new .peerRestarted)
        (ordered (atPhase_of linked fails)) response stored
    · rw [Endpoint.dispatch, Endpoint.greet, same]
      exact stored
    · rw [Endpoint.dispatch, Endpoint.greet, same]
      exact stored
  · exact stored

def unwalkedStep (net : Peering) (label : Label) : Option Peering :=
  if net.unwalked label then net.step label else none

theorem unwalkedStep_step (taken : net.unwalkedStep label = some next) :
    system.Step net label next := by
  simp only [unwalkedStep, ite_none_right_eq_some] at taken
  exact ⟨ordered_of_unwalked taken.1, taken.2⟩

theorem start_reached : system.Reachable (start smallCapacities 0) :=
  .start ⟨smallCapacities, 0, rfl⟩

/-- A message is delivered, accepted and acknowledged; the acknowledgement is retained. -/
def acknowledged : List Label :=
  handedOver ++
    [.decide .right 0 .accepted, .drain .right 0 .ready 16, .respond .right [] 100 0]

/-- The acknowledgement is written on a callis and received. -/
def completedOn (callis : CallisId) : List Label :=
  [.claim .right callis, .put .right 0,
    .receive .left callis .none none (.new .connectionLost) 16]

/-- The sender restarts before the retained acknowledgement is written, the other side dials it
and starts a fresh session, and its first message has the same id. -/
def restarted : List Label :=
  .restart .left smallCapacities 0 :: handshake .right 2 5 4 ++
    [.send .left 1 2 a3MessageTypeBase 0 [] 0 100 0]

/-- The steps that walk no index and meet `Cleared`. -/
def clearedStep (net : Peering) : Label → Option Peering
  | .hello side callis input =>
    if (net.links.lookup callis).all fun link =>
        !link.phase.joins || link.at side.other ≤ (net.endpoint side).peer ||
          (net.endpoint side).inbound.session.dedupe.set = ∅ then
      net.unwalkedStep (.hello side callis input)
    else none
  | label => net.unwalkedStep label

theorem clearedStep_step (taken : net.clearedStep label = some next) :
    (system.restrict Cleared).Step net label next := by
  cases label with
  | hello side callis input =>
    simp only [clearedStep, ite_none_right_eq_some] at taken
    refine ⟨unwalkedStep_step taken.2, fun link linked joins unknown => ?_⟩
    have empty := taken.1
    simp only [linked, all_some, joins, Bool.not_true, Bool.false_or, Bool.or_eq_true,
      decide_eq_true_eq] at empty
    rcases empty with known | empty
    · exact absurd known (Nat.not_le.mpr unknown)
    · exact empty
  | send | allocate | store | claim | put | written | forget | lose | receive | decide | drain
  | cancel | drop | respond | close | dial | restart =>
    exact ⟨unwalkedStep_step taken, trivial⟩

end Peering

end AureliaPeering.Net
