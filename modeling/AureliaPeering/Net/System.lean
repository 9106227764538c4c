import AureliaPeering.Net.Inbound
import AureliaPeering.Session.HelloSections

/-!
Two endpoints of one peering, the callis between them, and the frames in flight.

A callis joins one process of either side, and comes to life at either end as its handshake gets
there; the sections of all handshakes and all other steps interleave.  Frames travel in order on a
callis, and its loss takes any suffix of those in flight.  A restart replaces a process by a new
one, which knows none of the old callis; what the old process has heard and what its tabernas have
decided stays in the account.
-/

namespace AureliaPeering.Net

open Collections Store Session

/-- A claim in the hands of a transmitter, and whether its frame has gone out. -/
structure Outstanding where
  claim : RetainedClaim
  written : Bool
deriving DecidableEq

/-- A process.  `sent` counts the ids it has allocated, `peer` is the latest process of the other
side with which a callis of its own came to life, `heard` lists the messages its side has received
and `succeeded` those of its own that completed successfully; `incarnation`, `peer`, `heard` and
`succeeded` are for the account only. -/
structure Endpoint where
  inbound : Inbound
  claims : List Outstanding
  sent : Nat
  incarnation : Nat
  peer : Nat
  heard : List (Nat × PeerMessageId)
  succeeded : List PeerMessageId

structure Packet where
  callis : CallisId
  incarnation : Nat
  frame : OutboundFrame
deriving DecidableEq, Repr

/-- A callis from its hello on: the two processes, and the `RECONNECT` flag of the hello. -/
structure Link where
  dialler : Side
  left : Nat
  right : Nat
  reconnect : Bool
  phase : HelloPhase
deriving DecidableEq, Repr

def Link.at (link : Link) : Side → Nat
  | .left => link.left
  | .right => link.right

def Link.dials (link : Link) (side : Side) : Bool := link.dialler = side

def Link.live (link : Link) (side : Side) : Bool := link.phase.live (link.dials side)

structure Peering where
  endpoint : Side → Endpoint
  wire : Side → List Packet
  links : HashMap CallisId Link

inductive Label where
  | send (side : Side) (srcTaberna dstTaberna : TabernaId) (msgType : MessageType) (flags : Nat)
      (payload : Bytes) (ackTx : AckSender) (deadline now : Instant)
  | allocate (side : Side)
  | store (side : Side) (op : Op)
  | claim (side : Side) (callis : CallisId)
  | put (side : Side) (index : Nat)
  | written (side : Side) (index : Nat) (result : Except AureliaError Unit)
  | forget (side : Side) (index : Nat)
  | lose (side : Side) (callis : CallisId) (keep : Nat)
  | receive (side : Side) (callis : CallisId) (cancelled : CancelReason)
      (sink : Option (Except AureliaError Unit)) (error : AureliaError) (sendQueueSize : Nat)
  | decide (side : Side) (token : AcceptReceiver) (decision : AcceptDecision)
  | drain (side : Side) (index : Nat) (activation : BlobActivation) (sendQueueSize : Nat)
  | cancel (side : Side) (index : Nat) (reason : CancelReason) (sendQueueSize : Nat)
  | drop (side : Side) (index : Nat)
  | respond (side : Side) (payload : Bytes) (deadline now : Instant)
  | close (side : Side) (order : List SlotId)
  | dial (side : Side) (callis : CallisId)
  | hello (side : Side) (callis : CallisId) (input : HelloInput)
  | restart (side : Side) (capacities : RetainedCapacities) (now : Instant)

/-- The ids whose senders an operation completes successfully. -/
def successes (output : Output) : List PeerMessageId :=
  output.completions.filterMap fun effect =>
    match effect.result with
    | .ok _ => some effect.peerMsgId
    | .error _ => none

def internal : Op → Bool
  | .insertAck .. | .insertError .. | .insertTracked .. | .claimNext _ | .completeWrite ..
  | .ack _ =>
    false
  | _ => true

def errorFrame (peerMsgId : PeerMessageId) (payload : Bytes) : OutboundFrame :=
  .control msgError peerMsgId payload

namespace Endpoint

def dispatch (endpoint : Endpoint) : RetainedStore := endpoint.inbound.session.dispatch

def setInbound (endpoint : Endpoint) (inbound : Inbound) : Endpoint :=
  { endpoint with inbound := inbound }

def new (capacities : RetainedCapacities) (now : Instant) (incarnation peer : Nat)
    (deliveries : List Delivery) : Endpoint :=
  { inbound :=
      { session := PeerSession.new (RetainedStore.new capacities now)
        waiters := []
        outcomes := []
        deliveries := deliveries
        duplicates := [] }
    claims := []
    sent := 0
    incarnation := incarnation
    peer := peer
    heard := []
    succeeded := [] }

/-- An operation of the retained store, whose completions go to the waiting senders. -/
def perform (endpoint : Endpoint) (op : Op) : Option (Output × Endpoint) :=
  match Store.step endpoint.dispatch op with
  | .error _ => none
  | .ok (output, dispatch) =>
    some (output,
      { endpoint with
        inbound := { endpoint.inbound with
          session := { endpoint.inbound.session with dispatch := dispatch } }
        succeeded := endpoint.succeeded ++ successes output })

/-- `create_outgoing`: the id is spent whether or not the message is retained. -/
def send (endpoint : Endpoint) (srcTaberna dstTaberna : TabernaId) (msgType : MessageType)
    (flags : Nat) (payload : Bytes) (ackTx : AckSender) (deadline now : Instant) :
    Option Endpoint :=
  if endpoint.inbound.session.closing then none
  else
    let message : PeerMessage :=
      ⟨endpoint.sent % u32Limit, srcTaberna, dstTaberna, msgType, flags, payload⟩
    ({ endpoint with sent := endpoint.sent + 1 }.perform
      (.insertTracked ⟨message, ackTx⟩ deadline now)).map Prod.snd

def claim (endpoint : Endpoint) (callis : CallisId) : Option Endpoint :=
  match endpoint.perform (.claimNext callis) with
  | some (.claim (some claimed), next) =>
    some { next with claims := next.claims ++ [⟨claimed, false⟩] }
  | _ => none

/-- The transmitter learns the result of its write.  A write that succeeded has put the frame. -/
def written (endpoint : Endpoint) (index : Nat) (result : Except AureliaError Unit) :
    Option Endpoint :=
  match endpoint.claims[index]? with
  | none => none
  | some outstanding =>
    if result.toBool && !outstanding.written then none
    else
      ({ endpoint with claims := endpoint.claims.eraseIdx index }.perform
        (.completeWrite outstanding.claim result)).map Prod.snd

/-- Send the first outcome: it becomes a retained response. -/
def respond (endpoint : Endpoint) (payload : Bytes) (deadline now : Instant) : Option Endpoint :=
  match endpoint.inbound.outcomes with
  | [] => none
  | outcome :: rest =>
    let next := endpoint.setInbound { endpoint.inbound with outcomes := rest }
    match outcome with
    | .ack peerMsgId => (next.perform (.insertAck peerMsgId deadline now)).map Prod.snd
    | .error peerMsgId _ =>
      (next.perform (.insertError peerMsgId (errorFrame peerMsgId payload) deadline now)).map
        Prod.snd
    | .skip => some next

/-- A frame arrives.  `error` is what the payload of an error frame decodes to. -/
def receive (endpoint : Endpoint) (packet : Packet) (cancelled : CancelReason)
    (sink : Option (Except AureliaError Unit)) (error : AureliaError) (sendQueueSize : Nat) :
    Option Endpoint :=
  match packet.frame with
  | .ack peerMsgId => (endpoint.perform (.ack peerMsgId)).map Prod.snd
  | .control msgType peerMsgId _ =>
    if msgType = msgError then (endpoint.perform (.failOne peerMsgId error)).map Prod.snd
    else some endpoint
  | .message message =>
    some { endpoint with
      inbound := endpoint.inbound.receiveMessage packet.callis packet.incarnation message
        cancelled sink sendQueueSize
      heard := endpoint.heard ++ [(packet.incarnation, message.peerMsgId)] }

/-- A section of a handshake with process `peer` of the other side.  `live` says whether the callis
is alive at this end after it. -/
def greet (endpoint : Endpoint) (peer : Nat) (live : Bool) (task : HelloTask) : Endpoint :=
  { endpoint with
    inbound := { endpoint.inbound with session := task.session }
    succeeded := endpoint.succeeded ++ successes (.effects task.effects)
    peer := if live then max endpoint.peer peer else endpoint.peer }

end Endpoint

namespace Peering

def setEndpoint (net : Peering) (side : Side) (endpoint : Endpoint) : Peering :=
  { net with endpoint := Function.update net.endpoint side endpoint }

def setWire (net : Peering) (side : Side) (packets : List Packet) : Peering :=
  { net with wire := Function.update net.wire side packets }

/-- The callis is one of the present process of `side`. -/
def owns (net : Peering) (side : Side) (callis : CallisId) : Bool :=
  match net.links.lookup callis with
  | some link => link.at side = (net.endpoint side).incarnation
  | none => false

/-- The callis is alive at the present process of `side`. -/
def lives (net : Peering) (side : Side) (callis : CallisId) : Bool :=
  net.owns side callis && (net.links.lookup callis).any fun link => link.live side

/-- Where the handshake of a callis stands passes a test. -/
def atPhase (net : Peering) (test : HelloPhase → Bool) (callis : CallisId) : Bool :=
  (net.links.lookup callis).any fun link => test link.phase

/-- Keep the first `keep` frames of a callis and those of all others. -/
def truncate (callis : CallisId) : Nat → List Packet → List Packet
  | _, [] => []
  | keep, packet :: rest =>
    if packet.callis = callis then
      match keep with
      | 0 => truncate callis 0 rest
      | keep + 1 => packet :: truncate callis keep rest
    else packet :: truncate callis keep rest

def put (net : Peering) (side : Side) (index : Nat) : Option Peering :=
  let endpoint := net.endpoint side
  match endpoint.claims[index]? with
  | none => none
  | some outstanding =>
    if outstanding.written || !net.lives side outstanding.claim.callisId then none
    else
      some ((net.setEndpoint side { endpoint with
          claims := endpoint.claims.set index { outstanding with written := true } }).setWire side
        (net.wire side ++ [⟨outstanding.claim.callisId, endpoint.incarnation,
          claimToFrame outstanding.claim⟩]))

/-- The next frame of a callis arrives at the process at which it is alive. -/
def receive (net : Peering) (side : Side) (callis : CallisId) (cancelled : CancelReason)
    (sink : Option (Except AureliaError Unit)) (error : AureliaError) (sendQueueSize : Nat) :
    Option Peering :=
  if net.lives side callis then
    match (net.wire side.other).find? fun packet => packet.callis = callis with
    | none => none
    | some packet =>
      ((net.endpoint side).receive packet cancelled sink error sendQueueSize).map fun endpoint =>
        (net.setEndpoint side endpoint).setWire side.other ((net.wire side.other).erase packet)
  else none

def setLink (net : Peering) (callis : CallisId) (link : Link) : Peering :=
  { net with links := AList.insert callis link net.links }

/-- A side connects to the other and sends its hello. -/
def dial (net : Peering) (side : Side) (callis : CallisId) : Option Peering :=
  if (net.links.lookup callis).isSome then none
  else
    some (net.setLink callis ⟨side, (net.endpoint .left).incarnation,
      (net.endpoint .right).incarnation, (net.endpoint side).inbound.session.active, .offered⟩)

/-- The handshake of a callis takes its next section at `side`. -/
def hello (net : Peering) (side : Side) (callis : CallisId) (input : HelloInput) :
    Option Peering :=
  if net.owns side callis then
    (net.links.lookup callis).bind fun link =>
      (helloSection (link.dials side) (net.endpoint side).inbound.session link.reconnect input
        link.phase).map fun task =>
          let later := { link with phase := task.phase }
          (net.setEndpoint side ((net.endpoint side).greet (link.at side.other) (later.live side)
            task)).setLink callis later
  else none

/-- Replace the process of a side: its tabernas decide nothing any more. -/
def restart (net : Peering) (side : Side) (capacities : RetainedCapacities) (now : Instant) :
    Peering :=
  let endpoint := net.endpoint side
  net.setEndpoint side
    { Endpoint.new capacities now (endpoint.incarnation + 1) (net.endpoint side.other).incarnation
        (endpoint.inbound.deliveries.map fun delivery =>
          { delivery with decision := some (delivery.decision.getD .closed) }) with
      heard := endpoint.heard }

def locally (net : Peering) (side : Side) (change : Endpoint → Option Endpoint) : Option Peering :=
  (change (net.endpoint side)).map (net.setEndpoint side)

def inboundOf (change : Inbound → Option Inbound) (endpoint : Endpoint) : Option Endpoint :=
  (change endpoint.inbound).map endpoint.setInbound

def handleClose (order : List SlotId) (endpoint : Endpoint) : Option Endpoint :=
  ((endpoint.setInbound { endpoint.inbound with
    session := { endpoint.inbound.session with closing := true } }).perform
      (.failAll (.new .peerUnavailable) order)).map Prod.snd

def step (net : Peering) : Label → Option Peering
  | .send side srcTaberna dstTaberna msgType flags payload ackTx deadline now =>
    net.locally side fun endpoint =>
      endpoint.send srcTaberna dstTaberna msgType flags payload ackTx deadline now
  | .allocate side =>
    net.locally side fun endpoint => some { endpoint with sent := endpoint.sent + 1 }
  | .store side op =>
    if internal op then net.locally side fun endpoint => (endpoint.perform op).map Prod.snd
    else none
  | .claim side callis =>
    if net.lives side callis then net.locally side fun endpoint => endpoint.claim callis else none
  | .put side index => net.put side index
  | .written side index result => net.locally side fun endpoint => endpoint.written index result
  | .forget side index =>
    net.locally side fun endpoint =>
      some { endpoint with claims := endpoint.claims.eraseIdx index }
  | .lose side callis keep => some (net.setWire side (truncate callis keep (net.wire side)))
  | .receive side callis cancelled sink error sendQueueSize =>
    net.receive side callis cancelled sink error sendQueueSize
  | .decide side token decision =>
    net.locally side (inboundOf fun inbound => inbound.decide token decision)
  | .drain side index activation sendQueueSize =>
    net.locally side (inboundOf fun inbound => inbound.drain index activation sendQueueSize)
  | .cancel side index reason sendQueueSize =>
    net.locally side (inboundOf fun inbound => inbound.cancel index reason sendQueueSize)
  | .drop side index => net.locally side (inboundOf fun inbound => inbound.drop index)
  | .respond side payload deadline now =>
    net.locally side fun endpoint => endpoint.respond payload deadline now
  | .close side order => net.locally side (handleClose order)
  | .dial side callis => net.dial side callis
  | .hello side callis input => net.hello side callis input
  | .restart side capacities now => some (net.restart side capacities now)

/-- The walks of a step visit the slots of the index they read. -/
def Ordered (net : Peering) : Label → Prop
  | .store side op => op.Ordered (net.endpoint side).dispatch
  | .close side order => (net.endpoint side).dispatch.tracked.ValueOrder order
  | .hello side callis input =>
    net.atPhase HelloPhase.fails callis = true →
      (net.endpoint side).dispatch.tracked.ValueOrder input.order
  | _ => True

/-- The steps that walk no index, and the handshakes that walk it as it stands. -/
def unwalked (net : Peering) : Label → Bool
  | .store _ (.markCallisReplayReady _) => true
  | .store .. | .close .. => false
  | .hello side callis input =>
    !net.atPhase HelloPhase.fails callis ||
      (net.endpoint side).dispatch.tracked.values = input.order
  | _ => true

theorem ordered_of_unwalked {net : Peering} {label : Label}
    (allowed : net.unwalked label = true) : net.Ordered label := by
  cases label with
  | store side op => cases op <;> trivial
  | close => cases allowed
  | hello side callis input =>
    intro fails
    simp only [unwalked, fails, Bool.not_true, Bool.false_or, decide_eq_true_eq] at allowed
    exact allowed ▸ .refl _
  | send | allocate | claim | put | written | forget | lose | receive | decide | drain | cancel
  | drop | respond | dial | restart => trivial

def start (capacities : RetainedCapacities) (now : Instant) : Peering where
  endpoint _ := Endpoint.new capacities now 0 0 []
  wire _ := []
  links := ∅

def smallCapacities : RetainedCapacities := ⟨16, 2, 4, 4⟩

/-- A side dials and both ends go through the given numbers of sections, with no primary callis
active and every response written. -/
def handshake (side : Side) (callis : CallisId) (accepting dialling : Nat) : List Label :=
  .dial side callis ::
    (List.replicate accepting (.hello side.other callis ⟨false, .ok (), []⟩) ++
      List.replicate dialling (.hello side callis ⟨false, .ok (), []⟩))

/-- A message goes over the first callis and is handed to its taberna. -/
def handedOver : List Label :=
  handshake .left 1 5 2 ++
    [.send .left 1 2 a3MessageTypeBase 0 [] 0 100 0, .claim .left 1, .put .left 0,
      .written .left 0 (.ok ()),
      .receive .right 1 .none (some (.ok ())) (.new .connectionLost) 16]

def system : Machine.System Peering Label where
  Initial net := ∃ capacities now, net = start capacities now
  Step net label next := net.Ordered label ∧ net.step label = some next

end Peering

end AureliaPeering.Net
