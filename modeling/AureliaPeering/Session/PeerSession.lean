import AureliaPeering.Session.Dedupe
import AureliaPeering.Store.Dispatch

/-!
The peer session and what the hello handshakes of a primary callis do to it.

The session flags are shared by several tasks, so each function takes the values it reads.  A
walk over the tracked messages takes its order as an argument, as in the retained store.
-/

namespace AureliaPeering.Session

open Collections Store

structure PeerSession where
  dedupe : DedupeState
  dispatch : RetainedStore
  active : Bool
  closing : Bool

inductive HelloPayload where
  | primary
  | blob (chunkSize ackWindowChunks : Nat)
deriving DecidableEq, Repr

/-- Why the receive loop of a callis cancels its waiters. -/
inductive CancelReason where
  | none
  | connectionLost
  | remoteClose
  | localShutdown
deriving DecidableEq, Repr

def CancelReason.shouldError : CancelReason → Bool
  | .remoteClose | .localShutdown => true
  | .none | .connectionLost => false

inductive ReceiveOutcome where
  | ack (peerMsgId : PeerMessageId)
  | error (error : AureliaError)
  | skip
deriving DecidableEq, Repr

/-- The channel on which the taberna decides about a delivery. -/
abbrev AcceptReceiver := Nat

inductive ReceiveSchedule where
  | immediate (outcome : ReceiveOutcome)
  | pending (dstTaberna : TabernaId) (acceptRx : AcceptReceiver)
  | pendingDuplicate (decisionRx : DecisionSender)
deriving DecidableEq, Repr

def outcomeOf (peerMsgId : PeerMessageId) : DedupeDecision → ReceiveOutcome
  | .ack => .ack peerMsgId
  | .error error => .error error
  | .abandoned => .skip

def trackedMessages (store : RetainedStore) (order : List SlotId) : List PeerMessage :=
  order.filterMap fun id =>
    match (store.slot id).bind RetainedSlot.item with
    | some (.tracked outbound) => some outbound.message
    | _ => none

namespace PeerSession

def new (dispatch : RetainedStore) : PeerSession := ⟨DedupeState.new, dispatch, false, false⟩

def clearDedupe (session : PeerSession) : PeerSession :=
  { session with dedupe := session.dedupe.clear }

def setActive (session : PeerSession) (active : Bool) : PeerSession :=
  { session with active := active }

/-- The tracked messages fail with `peer-restarted`. -/
def failRestarted (session : PeerSession) (order : List SlotId) :
    List CompletionEffect × PeerSession :=
  let (effects, dispatch) := session.dispatch.failAll (.new .peerRestarted) order
  (effects, { session with dispatch := dispatch })

def handleHelloResponse (session : PeerSession) (reconnect : Bool) (order : List SlotId) :
    List PeerMessage × List CompletionEffect × PeerSession :=
  if reconnect then (trackedMessages session.dispatch order, [], session)
  else
    let (effects, session) := session.failRestarted order
    ([], effects, session.clearDedupe)

/-- The answer says whether the session resumes. -/
def acceptHello (session : PeerSession) (reconnect : Bool) (order : List SlotId) :
    Bool × List CompletionEffect × PeerSession :=
  if reconnect && session.active then (true, [], session)
  else if session.active then
    let (effects, session) := session.failRestarted order
    (false, effects, session.clearDedupe)
  else (false, [], (session.setActive true).clearDedupe)

/-- The begin of a message or a blob request, and what its taberna answers to a new one. -/
def schedule (session : PeerSession) (message : PeerMessage)
    (enqueued : Except AureliaError AcceptReceiver) (sender : DecisionSender)
    (sendQueueSize : Nat) : ReceiveSchedule × List Resolution × PeerSession :=
  match session.dedupe.dedupeBegin message.peerMsgId sender with
  | (.duplicate decision, dedupe) =>
    (.immediate (outcomeOf message.peerMsgId decision), [], { session with dedupe := dedupe })
  | (.pendingDuplicate decisionRx, dedupe) =>
    (.pendingDuplicate decisionRx, [], { session with dedupe := dedupe })
  | (.new, dedupe) =>
    match enqueued with
    | .ok acceptRx =>
      (.pending message.dstTaberna acceptRx, [], { session with dedupe := dedupe })
    | .error error =>
      let (resolved, dedupe) :=
        dedupe.dedupeComplete sendQueueSize message.peerMsgId (.error error)
      (.immediate (.error error), resolved, { session with dedupe := dedupe })

/-- `sink` is the local taberna of the destination, if it is registered, with what its queue
answers when the message is enqueued. -/
def receiveMessageSchedule (session : PeerSession) (message : PeerMessage)
    (sink : Option (Except AureliaError AcceptReceiver)) (sender : DecisionSender)
    (sendQueueSize : Nat) : ReceiveSchedule × List Resolution × PeerSession :=
  if session.closing then
    (.immediate (.error (.new .peerUnavailable)), [], session)
  else
    match sink with
    | none => (.immediate (.error (.new .unknownTaberna)), [], session)
    | some enqueued => session.schedule message enqueued sender sendQueueSize

end PeerSession

/-- What a handshake leaves behind. -/
structure Handshake (Result : Type) where
  result : Except AureliaError Result
  effects : List CompletionEffect
  session : PeerSession

/-- The accepting side of a primary hello: the result is the `RECONNECT` flag of the response.
`sent` is the outcome of writing that response. -/
def acceptInboundPrimary (session : PeerSession) (primaryActive : Bool) (hello : HelloPayload)
    (reconnect : Bool) (sent : Except AureliaError Unit) (order : List SlotId) : Handshake Bool :=
  if hello ≠ .primary then ⟨.error (.new .protocolViolation), [], session⟩
  else
    let accepted :=
      if reconnect || (!primaryActive && !session.active) then session.acceptHello reconnect order
      else (false, [], session)
    match sent with
    | .error error => ⟨.error error, accepted.2.1, accepted.2.2⟩
    | .ok _ => ⟨.ok accepted.1, accepted.2.1, accepted.2.2.setActive true⟩

structure HelloResponse where
  payload : HelloPayload
  reconnect : Bool
  blob : Bool
deriving DecidableEq, Repr

/-- The connection as the peer state task learns of it. -/
structure Connected where
  replay : List PeerMessage
  freshSession : Bool
deriving DecidableEq, Repr

/-- The dialing side of a primary hello, from the response on.  `reconnect` is the flag the
hello carried: whether the session was active when it was sent. -/
def establishOutboundPrimary (session : PeerSession) (primaryActive reconnect : Bool)
    (response : Except AureliaError HelloResponse) (order : List SlotId) : Handshake Connected :=
  match response with
  | .error error => ⟨.error error, [], session⟩
  | .ok response =>
    if response.blob ∨ response.payload ≠ .primary then
      ⟨.error (.new .protocolViolation), [], session⟩
    else if reconnect && response.reconnect then
      let (replay, effects, session) := session.handleHelloResponse true order
      ⟨.ok ⟨replay, false⟩, effects, session.setActive true⟩
    else if reconnect && primaryActive then ⟨.ok ⟨[], false⟩, [], session.setActive true⟩
    else if reconnect then
      let (_, effects, session) := session.handleHelloResponse false order
      ⟨.ok ⟨[], true⟩, effects, session.setActive true⟩
    else if response.reconnect then
      ⟨.error (.new .protocolViolation), [], session⟩
    else ⟨.ok ⟨[], false⟩, [], session.setActive true⟩

/-- A handshake that reached the session, with what it read. -/
inductive HelloCall where
  | inbound (primaryActive : Bool) (hello : HelloPayload) (reconnect : Bool)
      (sent : Except AureliaError Unit) (order : List SlotId)
  | outbound (primaryActive reconnect : Bool) (response : Except AureliaError HelloResponse)
      (order : List SlotId)

namespace HelloCall

def apply (session : PeerSession) : HelloCall → PeerSession
  | .inbound primaryActive hello reconnect sent order =>
    (acceptInboundPrimary session primaryActive hello reconnect sent order).session
  | .outbound primaryActive reconnect response order =>
    (establishOutboundPrimary session primaryActive reconnect response order).session

/-- Whether a handshake empties the dedupe state.  An inbound one does so only while the session
is inactive: with `RECONNECT` an active session resumes, and without it the guard skips it. -/
def clears (session : PeerSession) : HelloCall → Bool
  | .inbound primaryActive hello reconnect _ _ =>
    hello = .primary && !session.active && (reconnect || !primaryActive)
  | .outbound primaryActive reconnect (.ok response) _ =>
    !response.blob && response.payload = .primary && reconnect && !response.reconnect &&
      !primaryActive
  | .outbound _ _ (.error _) _ => false

theorem apply_dedupe (session : PeerSession) (call : HelloCall) :
    (call.apply session).dedupe =
      if call.clears session then DedupeState.new else session.dedupe := by
  cases call with
  | inbound primaryActive hello reconnect sent order =>
    have accepted :
        (acceptInboundPrimary session primaryActive hello reconnect sent order).session.dedupe =
          if hello ≠ .primary then session.dedupe
          else (if reconnect || (!primaryActive && !session.active) then
            session.acceptHello reconnect order else (false, [], session)).2.2.dedupe := by
      unfold acceptInboundPrimary
      cases sent <;> split <;> rfl
    rw [apply, accepted]
    by_cases primary : hello = .primary
    · cases active : session.active <;> cases reconnect <;> cases primaryActive <;>
      simp [primary, active, clears, PeerSession.acceptHello, PeerSession.clearDedupe,
        DedupeState.clear]
    · simp [primary, clears]
  | outbound primaryActive reconnect response order =>
    cases response with
    | error => rfl
    | ok response =>
      obtain ⟨payload, echoed, blob⟩ := response
      simp only [apply, establishOutboundPrimary, clears]
      by_cases primary : payload = .primary
      · cases blob <;> cases reconnect <;> cases echoed <;> cases primaryActive <;>
        simp [primary, PeerSession.handleHelloResponse, PeerSession.failRestarted,
          PeerSession.setActive, PeerSession.clearDedupe, DedupeState.clear]
      · simp [primary]

end HelloCall

end AureliaPeering.Session
