import AureliaPeering.Lib.Framing
import AureliaPeering.Store.Dispatch
import AureliaPeering.Wire.Frame

/-!
The transmitter of a primary callis.

The loop is a machine with one phase for each place where it can be interrupted, so that other
tasks work on the retained store between any two of its steps.  Every write names its frame and
how many of its bytes reached the stream.
-/

namespace AureliaPeering.Callis

open Store Wire

inductive WriteOutcome where
  | written
  | failed (count : Nat) (message : String)
  | timedOut (count : Nat)
deriving DecidableEq, Repr

inductive Timed where
  | done (result : Except AureliaError Unit)
  | elapsed

abbrev FrameWrite := Framing.Write UInt8

def connectionLost (message : String) : AureliaError := ⟨.connectionLost, some message⟩

/-- `send_frame`: the header, the payload, and a flush, in one piece. -/
def sendFrame (header : WireHeader) (payload : Bytes) : WriteOutcome → FrameWrite × Timed
  | .written =>
    let frame := header.encode ++ payload
    (⟨frame, frame.length⟩, .done (.ok ()))
  | .failed count message =>
    (⟨header.encode ++ payload, count⟩, .done (.error (connectionLost message)))
  | .timedOut count => (⟨header.encode ++ payload, count⟩, .elapsed)

def sendControlFrame (msgType : MessageType) (flags : UInt16) (peerMsgId : PeerMessageId)
    (payload : Bytes) (outcome : WriteOutcome) : List FrameWrite × Timed :=
  match controlHeader msgType flags peerMsgId payload.length with
  | .error error => ([], .done (.error error))
  | .ok header =>
    let (write, result) := sendFrame header payload outcome
    ([write], result)

def sendOutboundFrame (frame : OutboundFrame) (outcome : WriteOutcome) :
    List FrameWrite × Timed :=
  match outboundHeader frame with
  | .error error => ([], .done (.error error))
  | .ok (header, payload) =>
    let (write, result) := sendFrame header payload outcome
    ([write], result)

/-- The places where the loop can be interrupted. -/
inductive Phase where
  | top
  | claim
  | claimed (lease : RetainedClaim)
  | write (lease : RetainedClaim)
  | select
  | stopped
deriving DecidableEq

structure Transmitter where
  callisId : CallisId
  phase : Phase
  dispatch : RetainedStore
  closing : Bool
  closeIntent : Bool
  lastSend : Instant
  internalShutdown : Bool
  writes : List FrameWrite

inductive Event where
  | store (op : Op)
  | setCloseIntent
  | setClosing
  | takeCloseIntent (outcome : WriteOutcome)
  | claimNext
  | prepare (now : Instant)
  | write (now : Instant) (outcome : WriteOutcome)
  | wake
  | shutdown
  | tick (now : Instant) (keepaliveInterval : Nat) (outcome : WriteOutcome)

namespace Transmitter

def stream (state : Transmitter) : Bytes := Framing.stream state.writes

def new (callisId : CallisId) (dispatch : RetainedStore) (now : Instant) : Transmitter where
  callisId := callisId
  phase := .top
  dispatch := dispatch
  closing := false
  closeIntent := false
  lastSend := now
  internalShutdown := false
  writes := []

def goto (state : Transmitter) (phase : Phase) : Transmitter := { state with phase := phase }

def fail (state : Transmitter) : Transmitter :=
  { state with phase := .stopped, internalShutdown := true }

def log (state : Transmitter) (writes : List FrameWrite) : Transmitter :=
  { state with writes := state.writes ++ writes }

def complete (state : Transmitter) (lease : RetainedClaim) (result : Except AureliaError Unit) :
    Transmitter :=
  { state with dispatch := (state.dispatch.completeWrite lease result).2 }

def failInflight (state : Transmitter) (peerMsgId : PeerMessageId) (error : AureliaError) :
    Transmitter :=
  { state with dispatch := (state.dispatch.failOne peerMsgId error).2 }

/-- `prepare_dispatch`: a message is checked against the session and its deadline once more. -/
def prepareDispatch (state : Transmitter) (now : Instant) (peerMsgId : PeerMessageId) :
    Except AureliaError Unit × Transmitter :=
  if state.closing then
    let error := AureliaError.new .peerUnavailable
    (.error error, state.failInflight peerMsgId error)
  else
    match state.dispatch.deadline peerMsgId with
    | none => (.error (.new .sendTimeout), state)
    | some due =>
      if due ≤ now then
        let error := AureliaError.new .sendTimeout
        (.error error, state.failInflight peerMsgId error)
      else (.ok (), state)

def takeCloseIntent (state : Transmitter) (outcome : WriteOutcome) : Transmitter :=
  if state.closeIntent then
    let (writes, _) := sendControlFrame msgClose 0 0 [] outcome
    ({ state with closeIntent := false }.log writes).fail
  else state.goto .claim

def claimNext (state : Transmitter) : Transmitter :=
  let (claimed, dispatch) := state.dispatch.claimNext state.callisId
  let next := { state with dispatch := dispatch }
  match claimed with
  | some lease => next.goto (.claimed lease)
  | none => next.goto .select

def prepare (state : Transmitter) (lease : RetainedClaim) (now : Instant) : Transmitter :=
  if lease.deadline ≤ now then
    (state.complete lease (.error (.new .sendTimeout))).goto .top
  else
    match claimMessageId lease with
    | none => state.goto (.write lease)
    | some peerMsgId =>
      match state.prepareDispatch now peerMsgId with
      | (.ok _, next) => next.goto (.write lease)
      | (.error error, next) => (next.complete lease (.error error)).goto .top

/-- The write of a claimed item.  A write that fails ends the loop; one that is cancelled by its
deadline does not. -/
def writeLease (state : Transmitter) (lease : RetainedClaim) (now : Instant)
    (outcome : WriteOutcome) : Transmitter :=
  let (writes, result) := sendOutboundFrame (claimToFrame lease) outcome
  let next := state.log writes
  match result with
  | .done (.ok _) => ({ next with lastSend := now }.complete lease (.ok ())).goto .top
  | .done (.error error) => (next.complete lease (.error error)).fail
  | .elapsed => (next.complete lease (.error (.new .sendTimeout))).goto .top

def tick (state : Transmitter) (now : Instant) (keepaliveInterval : Nat)
    (outcome : WriteOutcome) : Transmitter :=
  if state.closing then state.goto .top
  else if now - state.lastSend < keepaliveInterval then state.goto .top
  else
    let (writes, result) := sendControlFrame msgKeepalive 0 0 [] outcome
    let next := state.log writes
    match result with
    | .done (.ok _) => { next with lastSend := now }.goto .top
    | _ => next.fail

def step (state : Transmitter) : Event → Option Transmitter
  | .store op =>
    match Store.step state.dispatch op with
    | .ok (_, dispatch) => some { state with dispatch := dispatch }
    | .error _ => none
  | .setCloseIntent => some { state with closeIntent := true }
  | .setClosing => some { state with closing := true }
  | .takeCloseIntent outcome =>
    if state.phase = .top then some (state.takeCloseIntent outcome) else none
  | .claimNext => if state.phase = .claim then some state.claimNext else none
  | .prepare now =>
    match state.phase with
    | .claimed lease => some (state.prepare lease now)
    | _ => none
  | .write now outcome =>
    match state.phase with
    | .write lease => some (state.writeLease lease now outcome)
    | _ => none
  | .wake => if state.phase = .select then some (state.goto .top) else none
  | .shutdown => if state.phase = .select then some (state.goto .stopped) else none
  | .tick now keepaliveInterval outcome =>
    if state.phase = .select then some (state.tick now keepaliveInterval outcome) else none

def system : Machine.System Transmitter Event :=
  .ofStep (fun state => ∃ callisId dispatch now, state = new callisId dispatch now) step

end Transmitter

end AureliaPeering.Callis
