import AureliaPeering.Lib.Slots
import AureliaPeering.Peer.Negotiation
import AureliaPeering.Peer.Pools

/-!
The blob callis handshakes of two endpoints over one living session.

Each endpoint is a blob manager.  Whether a new callis resumes is settled by what the two managers
have seen when the hello is sent and when it is answered; a manager to which a callis is added that
does not resume fails the streams it has.  The configurations are fixed, so that every handshake
agrees on the same settings.
-/

namespace AureliaPeering.Blob

open Collections Config Peer Wire List Option

/-- The part of the blob manager that the handshake of a callis reads and changes. -/
structure BlobEndpoint where
  hadCallis : Bool
  pool : BlobCallisPool
  /-- The outbound streams with the settings of their rings. -/
  streams : List (PeerMessageId × BlobCallisSettings)
  /-- The queued writes with the stream they belong to. -/
  writeSlots : List (PeerMessageId × Option PeerMessageId)
  recvStreams : List PeerMessageId
  pendingRequests : List PeerMessageId
  /-- Requests and streams about to start with the settings of a callis that was found. -/
  activating : List (PeerMessageId × BlobCallisSettings)
  registering : List (PeerMessageId × BlobCallisSettings)
  /-- Whether the endpoint has ever opened an outbound or an inbound stream. -/
  sent : Bool
  received : Bool

namespace BlobEndpoint

def new : BlobEndpoint := ⟨false, .new, [], [], [], [], [], [], false, false⟩

def hasStreamState (endpoint : BlobEndpoint) : Bool :=
  !endpoint.streams.isEmpty || !endpoint.writeSlots.isEmpty || !endpoint.recvStreams.isEmpty

def hasActiveStreams (endpoint : BlobEndpoint) : Bool :=
  !endpoint.pendingRequests.isEmpty || !endpoint.recvStreams.isEmpty || !endpoint.streams.isEmpty

def live (endpoint : BlobEndpoint) : List PeerMessageId :=
  endpoint.streams.map Prod.fst ++ endpoint.recvStreams ++ endpoint.pendingRequests

def failAllStreams (endpoint : BlobEndpoint) : BlobEndpoint :=
  { endpoint with streams := [], writeSlots := [], recvStreams := [], pendingRequests := [] }

/-- What `fail_stream` and `unregister_outbound_stream` remove. -/
def removeStream (endpoint : BlobEndpoint) (streamId : PeerMessageId) : BlobEndpoint :=
  { endpoint with
    streams := endpoint.streams.filter (·.1 ≠ streamId)
    writeSlots := endpoint.writeSlots.filter (·.2 ≠ some streamId) }

/-- The outbound streams whose rings do not fit a resumed callis. -/
def mismatched (endpoint : BlobEndpoint) (settings : BlobCallisSettings) : List PeerMessageId :=
  (endpoint.streams.filter (·.2 ≠ settings)).map Prod.fst

/-- `add_callis`, with the streams and requests that it fails. -/
def addCallis (endpoint : BlobEndpoint) (handle : CallisHandle) (settings : BlobCallisSettings)
    (resume : Bool) : BlobEndpoint × List PeerMessageId :=
  let (kept, failed) :=
    if resume then
      ((endpoint.mismatched settings).foldl removeStream endpoint, endpoint.mismatched settings)
    else if endpoint.hasStreamState then (endpoint.failAllStreams, endpoint.live)
    else (endpoint, [])
  ({ kept with hadCallis := true, pool := kept.pool.addCallis handle settings }, failed)

end BlobEndpoint

/-- How far one side of a handshake has come. -/
inductive HandshakeEnd where
  | handshaking
  /-- The callis is spawned, and its `Connected` is to be processed. -/
  | established (resume : Bool) (settings : BlobCallisSettings)
  | over
deriving DecidableEq

structure Handshake where
  dialler : Side
  /-- The flag of the hello. -/
  reconnect : Bool
  response : Option (Bool × HelloPayload)
  ends : Side → HandshakeEnd

def Handshake.inProgress (handshake : Handshake) : Bool :=
  decide (handshake.ends .left ≠ .over) || decide (handshake.ends .right ≠ .over)

structure BlobSession where
  endpoint : Side → BlobEndpoint
  handshakes : List Handshake
  /-- Requests and their acknowledgements in transit, by the side that sends the blob. -/
  requests : List (Side × PeerMessageId)
  acks : List (Side × PeerMessageId)
  /-- The streams and requests that a completed handshake has failed. -/
  failed : List (Side × PeerMessageId)

inductive SessionLabel where
  | sendBlob (side : Side) (streamId : PeerMessageId)
  | acceptRequest (side : Side) (streamId : PeerMessageId)
  | dropRequest (side : Side) (streamId : PeerMessageId)
  /-- A pending request finds the settings of a callis, -/
  | currentSettings (side : Side) (streamId : PeerMessageId) (callis : CallisId)
  /-- and is activated with them. -/
  | activate (side : Side) (streamId : PeerMessageId) (settings : BlobCallisSettings)
  /-- An acknowledged sender finds a callis, -/
  | ensureBlobCallis (side : Side) (streamId : PeerMessageId) (callis : CallisId)
  /-- and registers its stream. -/
  | registerStream (side : Side) (streamId : PeerMessageId) (settings : BlobCallisSettings)
  | unregisterStream (side : Side) (streamId : PeerMessageId)
  | removeRecvStream (side : Side) (streamId : PeerMessageId)
  | enqueueWrite (side : Side) (messageId : PeerMessageId) (stream : Option PeerMessageId)
  | finishWrite (side : Side) (messageId : PeerMessageId)
  | removeCallis (side : Side) (callis : CallisId)
  | dial (side : Side)
  | answer (index : Nat)
  | readResponse (index : Nat)
  /-- The connection of a handshake is lost before the side has its callis. -/
  | breaks (index : Nat) (side : Side)
  /-- The state task of a side processes the `Connected` of a handshake. -/
  | connected (index : Nat) (side : Side)
deriving DecidableEq

namespace BlobSession

def new : BlobSession := ⟨fun _ => .new, [], [], [], []⟩

def set (session : BlobSession) (side : Side) (endpoint : BlobEndpoint) : BlobSession :=
  { session with endpoint := Function.update session.endpoint side endpoint }

def move (session : BlobSession) (index : Nat) (handshake : Handshake) (side : Side)
    (next : HandshakeEnd) : BlobSession :=
  { session with
    handshakes := session.handshakes.set index
      { handshake with ends := Function.update handshake.ends side next } }

/-- The acceptor's part of `accept_inbound_blob`. -/
def acceptInboundBlob (config dialled : DomusConfig) (endpoint : BlobEndpoint) (reconnect : Bool) :
    Except AureliaError (Bool × BlobCallisSettings) :=
  (answerBlobHello config (blobHello dialled)).map fun settings =>
    (reconnect && (endpoint.hadCallis || endpoint.hasActiveStreams), settings)

/-- The dialler's check of the response in `establish_outbound_blob`. -/
def checkResponse (config : DomusConfig) (reconnect resumed : Bool) (payload : HelloPayload) :
    Except AureliaError (Bool × BlobCallisSettings) :=
  if !reconnect && resumed then .error (.new .protocolViolation)
  else
    (validateBlobHelloResponse config.blobWindow.chunkSize config.blobWindow.ackWindow payload).map
      fun settings => (reconnect && resumed, settings)

def answerStep (configs : Side → DomusConfig) (session : BlobSession) (index : Nat)
    (handshake : Handshake) : Option BlobSession :=
  let side := handshake.dialler.other
  if handshake.ends side = .handshaking ∧ handshake.response = none then
    match acceptInboundBlob (configs side) (configs handshake.dialler) (session.endpoint side)
      handshake.reconnect with
    | .error _ => some (session.move index handshake side .over)
    | .ok (resume, settings) =>
      some (session.move index
        { handshake with response := some (resume, blobHelloResponse settings) } side
        (.established resume settings))
  else none

def readResponseStep (configs : Side → DomusConfig) (session : BlobSession) (index : Nat)
    (handshake : Handshake) : Option BlobSession :=
  if handshake.ends handshake.dialler = .handshaking then
    match handshake.response with
    | none => none
    | some (resumed, payload) =>
      match checkResponse (configs handshake.dialler) handshake.reconnect resumed payload with
      | .error _ => some (session.move index handshake handshake.dialler .over)
      | .ok (resume, settings) =>
        some (session.move index handshake handshake.dialler (.established resume settings))
  else none

def connectedStep (session : BlobSession) (index : Nat) (handshake : Handshake) (side : Side) :
    Option BlobSession :=
  match handshake.ends side with
  | .established resume settings =>
    let (endpoint, failed) :=
      (session.endpoint side).addCallis ⟨index, .blob⟩ settings resume
    some { (session.set side endpoint).move index handshake side .over with
      failed := session.failed ++ failed.map (side, ·) }
  | _ => none

def step (configs : Side → DomusConfig) (session : BlobSession) :
    SessionLabel → Option BlobSession
  | .sendBlob side streamId =>
    some { session with requests := (side, streamId) :: session.requests }
  | .acceptRequest side streamId =>
    let endpoint := session.endpoint side
    if (side.other, streamId) ∈ session.requests then
      some ({ session with requests := session.requests.erase (side.other, streamId) }.set side
        { endpoint with pendingRequests := streamId :: endpoint.pendingRequests })
    else none
  | .dropRequest side streamId =>
    let endpoint := session.endpoint side
    some (session.set side
      { endpoint with pendingRequests := endpoint.pendingRequests.filter (· ≠ streamId) })
  | .currentSettings side streamId callis =>
    let endpoint := session.endpoint side
    (endpoint.pool.settings.lookup callis).map fun settings =>
      session.set side
        { endpoint with activating := (streamId, settings) :: endpoint.activating }
  | .activate side streamId settings =>
    let endpoint := session.endpoint side
    if (streamId, settings) ∈ endpoint.activating then
      let endpoint := { endpoint with
        activating := endpoint.activating.erase (streamId, settings) }
      let acked := { session with acks := (side.other, streamId) :: session.acks }
      if streamId ∈ endpoint.recvStreams then some (acked.set side endpoint)
      else if streamId ∈ endpoint.pendingRequests then
        some (acked.set side { endpoint with
          pendingRequests := endpoint.pendingRequests.filter (· ≠ streamId)
          recvStreams := streamId :: endpoint.recvStreams
          received := true })
      else some (session.set side endpoint)
    else none
  | .ensureBlobCallis side streamId callis =>
    let endpoint := session.endpoint side
    if (side, streamId) ∈ session.acks then
      (endpoint.pool.settings.lookup callis).map fun settings =>
        { session with acks := session.acks.erase (side, streamId) }.set side
          { endpoint with registering := (streamId, settings) :: endpoint.registering }
    else none
  | .registerStream side streamId settings =>
    let endpoint := session.endpoint side
    if (streamId, settings) ∈ endpoint.registering then
      some (session.set side { endpoint with
        registering := endpoint.registering.erase (streamId, settings)
        streams := (streamId, settings) :: endpoint.streams.filter (·.1 ≠ streamId)
        sent := true })
    else none
  | .unregisterStream side streamId =>
    some (session.set side ((session.endpoint side).removeStream streamId))
  | .removeRecvStream side streamId =>
    let endpoint := session.endpoint side
    some (session.set side
      { endpoint with recvStreams := endpoint.recvStreams.filter (· ≠ streamId) })
  | .enqueueWrite side messageId stream =>
    -- A write belongs to a stream of the side, or answers a frame of a stream of the other.
    let endpoint := session.endpoint side
    if endpoint.sent ∨ endpoint.received ∨ (session.endpoint side.other).sent then
      some (session.set side
        { endpoint with writeSlots := (messageId, stream) :: endpoint.writeSlots })
    else none
  | .finishWrite side messageId =>
    let endpoint := session.endpoint side
    some (session.set side
      { endpoint with writeSlots := endpoint.writeSlots.filter (·.1 ≠ messageId) })
  | .removeCallis side callis =>
    let endpoint := session.endpoint side
    some (session.set side { endpoint with pool := endpoint.pool.removeCallis callis })
  | .dial side =>
    some { session with handshakes := session.handshakes ++
      [⟨side, (session.endpoint side).hadCallis, none, fun _ => .handshaking⟩] }
  | .answer index => session.handshakes[index]?.bind (session.answerStep configs index)
  | .readResponse index => session.handshakes[index]?.bind (session.readResponseStep configs index)
  | .breaks index side => session.handshakes[index]?.bind fun handshake =>
    if handshake.ends side = .handshaking then some (session.move index handshake side .over)
    else none
  | .connected index side => session.handshakes[index]?.bind fun handshake =>
    session.connectedStep index handshake side

def system (configs : Side → DomusConfig) : Machine.System BlobSession SessionLabel :=
  .ofStep (· = new) (step configs)

/-- A side that has had no callis dials only as the first, with no other handshake in progress;
while such a handshake is in progress nobody dials; and a hello with RECONNECT reaches a side that
has had a callis or has work for one. -/
def Recognised (session : BlobSession) : SessionLabel → Prop
  | .dial side =>
    if (session.endpoint side).hadCallis then
      ∀ handshake ∈ session.handshakes, handshake.inProgress = true → handshake.reconnect = true
    else (session.endpoint side.other).hadCallis = false ∧
      ∀ handshake ∈ session.handshakes, handshake.inProgress = false
  | .answer index => ∀ handshake ∈ session.handshakes[index]?, handshake.reconnect = true →
      (session.endpoint handshake.dialler.other).hadCallis = true ∨
        (session.endpoint handshake.dialler.other).hasActiveStreams = true
  | _ => True

instance (session : BlobSession) (label : SessionLabel) :
    Decidable (session.Recognised label) := by
  unfold Recognised
  split
  · infer_instance
  · infer_instance
  · infer_instance

end BlobSession

/-! ### The settings that every handshake agrees on -/

def agreedSettings (configs : Side → DomusConfig) : BlobCallisSettings :=
  negotiateBlobSettings (configs .left).blobWindow.chunkSize (configs .left).blobWindow.ackWindow
    (configs .right).blobWindow.chunkSize (configs .right).blobWindow.ackWindow

theorem negotiateBlobSettings_agreed (configs : Side → DomusConfig) (side : Side) :
    negotiateBlobSettings (configs side).blobWindow.chunkSize (configs side).blobWindow.ackWindow
      (configs side.other).blobWindow.chunkSize (configs side.other).blobWindow.ackWindow =
        agreedSettings configs := by
  cases side with
  | left => rfl
  | right =>
    simp only [agreedSettings, negotiateBlobSettings, Side.other]
    rw [Nat.min_comm, Nat.min_comm (configs .right).blobWindow.ackWindow]

theorem answerBlobHello_agreed {configs : Side → DomusConfig} {side : Side}
    {settings : BlobCallisSettings}
    (answered : answerBlobHello (configs side.other) (blobHello (configs side)) = .ok settings) :
    settings = agreedSettings configs := by
  obtain ⟨_, _, isHello, _, _, rfl⟩ := answerBlobHello_cases answered
  obtain ⟨rfl, rfl⟩ := HelloPayload.blob.inj isHello
  exact negotiateBlobSettings_agreed configs side

theorem validateBlobHelloResponse_ok {chunk window : Nat} {answer settings : BlobCallisSettings}
    (taken : validateBlobHelloResponse chunk window (blobHelloResponse answer) = .ok settings) :
    settings = answer := by
  simp only [validateBlobHelloResponse, blobHelloResponse, blobHelloValues] at taken
  split at taken
  · cases taken
  · next isOk =>
      split at isOk
      · cases isOk
      · cases isOk
        split at taken
        · cases taken
        · cases taken
          rfl

namespace BlobEndpoint

/-- Without a callis there have been at most requests, and all streams have the agreed settings. -/
structure Sound (agreed : BlobCallisSettings) (endpoint : BlobEndpoint) : Prop where
  untouched : endpoint.hadCallis = false →
    ∃ pendingRequests, endpoint = { new with pendingRequests }
  pool : ∀ callis settings, endpoint.pool.settings.lookup callis = some settings → settings = agreed
  streams : ∀ stream ∈ endpoint.streams, stream.2 = agreed
  registering : ∀ stream ∈ endpoint.registering, stream.2 = agreed
  received : endpoint.recvStreams ≠ [] → endpoint.received = true

section Sound

variable {agreed : BlobCallisSettings} {endpoint : BlobEndpoint} (sound : endpoint.Sound agreed)

include sound

theorem Sound.hadCallis_of (touched : ∀ pendingRequests, endpoint ≠ { new with pendingRequests }) :
    endpoint.hadCallis = true := by
  rw [← Bool.not_eq_false]
  intro never
  obtain ⟨pendingRequests, untouched⟩ := sound.untouched never
  exact touched pendingRequests untouched

theorem Sound.hadCallis_of_lookup {callis : CallisId} {settings : BlobCallisSettings}
    (found : endpoint.pool.settings.lookup callis = some settings) : endpoint.hadCallis = true := by
  apply sound.hadCallis_of
  rintro _ rfl
  cases found

theorem Sound.pending (pendingRequests : List PeerMessageId) :
    ({ endpoint with pendingRequests } : BlobEndpoint).Sound agreed :=
  { sound with
    untouched never := by
      obtain ⟨_, rfl⟩ := sound.untouched never
      exact ⟨pendingRequests, rfl⟩ }

/-- An endpoint that has had a callis may start whatever agrees with it. -/
theorem Sound.engage (had : endpoint.hadCallis = true)
    {activating registering streams : List (PeerMessageId × BlobCallisSettings)}
    {writeSlots : List (PeerMessageId × Option PeerMessageId)}
    {pendingRequests recvStreams : List PeerMessageId} {sent received : Bool}
    (isRegistering : ∀ stream ∈ registering, stream.2 = agreed)
    (isStream : ∀ stream ∈ streams, stream.2 = agreed)
    (isReceived : recvStreams ≠ [] → received = true) :
    BlobEndpoint.Sound agreed { endpoint with
      activating, registering, streams, writeSlots, pendingRequests, recvStreams, sent,
      received } where
  untouched never := by cases had.symm.trans never
  pool := sound.pool
  streams := isStream
  registering := isRegistering
  received := isReceived

theorem sound_removeStream (streamId : PeerMessageId) :
    (endpoint.removeStream streamId).Sound agreed :=
  { sound with
    untouched never := by
      obtain ⟨pendingRequests, rfl⟩ := sound.untouched never
      exact ⟨pendingRequests, rfl⟩
    streams stream listed := sound.streams stream (mem_of_mem_filter listed) }

theorem sound_finish (isStream : PeerMessageId → Bool)
    (isWrite : PeerMessageId × Option PeerMessageId → Bool) :
    BlobEndpoint.Sound agreed { endpoint with
      recvStreams := endpoint.recvStreams.filter isStream
      writeSlots := endpoint.writeSlots.filter isWrite } :=
  { sound with
    untouched never := by
      obtain ⟨pendingRequests, rfl⟩ := sound.untouched never
      exact ⟨pendingRequests, rfl⟩
    received some := sound.received fun none => some (by rw [none]; rfl) }

theorem sound_removeCallis (callis : CallisId) :
    ({ endpoint with pool := endpoint.pool.removeCallis callis } : BlobEndpoint).Sound agreed :=
  { sound with
    untouched never := by
      obtain ⟨pendingRequests, rfl⟩ := sound.untouched never
      exact ⟨pendingRequests, rfl⟩
    pool := by
      intro other settings found
      rw [BlobCallisPool.removeCallis, HashMap.lookup_erase_eq] at found
      split at found
      · cases found
      · exact sound.pool other settings found }

theorem addCallis_keeps {handle : CallisHandle} {resume : Bool}
    (first : resume = false → endpoint.hadCallis = false) :
    endpoint.addCallis handle agreed resume =
      ({ endpoint with hadCallis := true, pool := endpoint.pool.addCallis handle agreed }, []) := by
  unfold addCallis
  cases resume with
  | true =>
    have fits : endpoint.mismatched agreed = [] := by
      simp only [mismatched, map_eq_nil_iff, filter_eq_nil_iff]
      intro stream listed
      simp [sound.streams stream listed]
    simp [fits]
  | false =>
    obtain ⟨_, rfl⟩ := sound.untouched (first rfl)
    rfl

theorem sound_addCallis (handle : CallisHandle) :
    ({ endpoint with hadCallis := true, pool := endpoint.pool.addCallis handle agreed } :
      BlobEndpoint).Sound agreed :=
  { sound with
    untouched := nofun
    pool := by
      intro callis settings found
      simp only [BlobCallisPool.addCallis, HashMap.lookup_insert_eq] at found
      split at found
      · exact (some.inj found).symm
      · exact sound.pool callis settings found }

end Sound

end BlobEndpoint

namespace BlobSession

variable {configs : Side → DomusConfig} {session next : BlobSession}

/-- A handshake as it is in a recognised run: both of its sides resume if its dialler had a callis,
and otherwise it is the first of each side. -/
structure Consistent (configs : Side → DomusConfig) (hadCallis : Side → Bool)
    (handshake : Handshake) : Prop where
  response : ∀ resumed payload, handshake.response = some (resumed, payload) →
    resumed = handshake.reconnect ∧ payload = blobHelloResponse (agreedSettings configs)
  established : ∀ side resume settings, handshake.ends side = .established resume settings →
    resume = handshake.reconnect ∧ settings = agreedSettings configs
  first : handshake.reconnect = false → ∀ side, handshake.ends side ≠ .over →
    hadCallis side = false

/-- The side has a stream, or may soon have one. -/
def Engaged (session : BlobSession) (side : Side) : Prop :=
  (∃ streamId, (side, streamId) ∈ session.acks) ∨ (session.endpoint side).sent = true ∨
    (session.endpoint side).registering ≠ []

structure Continuous (configs : Side → DomusConfig) (session : BlobSession) : Prop where
  sound : ∀ side, (session.endpoint side).Sound (agreedSettings configs)
  /-- A stream is sent only after the other side has activated it. -/
  engaged : ∀ side, session.Engaged side → (session.endpoint side.other).received = true
  consistent : ∀ handshake ∈ session.handshakes,
    Consistent configs (fun side => (session.endpoint side).hadCallis) handshake
  /-- A handshake without RECONNECT is alone. -/
  alone : ∀ (i j : Nat) (first second : Handshake), session.handshakes[i]? = some first →
    session.handshakes[j]? = some second → i ≠ j → first.inProgress = true →
      second.inProgress = true → first.reconnect = true
  unharmed : session.failed = []

variable {side : Side} {endpoint : BlobEndpoint} {handshake : Handshake} {index : Nat}
  {streamId : PeerMessageId}

theorem endpoint_set_self : (session.set side endpoint).endpoint side = endpoint :=
  Function.update_self ..

section Continuous

variable (continuous : session.Continuous configs)

include continuous

theorem Continuous.set (sound : endpoint.Sound (agreedSettings configs))
    (first : ∀ handshake ∈ session.handshakes, handshake.reconnect = false →
      handshake.ends side ≠ .over → endpoint.hadCallis = false)
    (received : (session.endpoint side).received = true → endpoint.received = true)
    (engaged : endpoint.sent = true ∨ endpoint.registering ≠ [] →
      (session.endpoint side.other).received = true) :
    (session.set side endpoint).Continuous configs := by
  have at_side := @endpoint_set_self session side endpoint
  have at_other : (session.set side endpoint).endpoint side.other = session.endpoint side.other :=
    Function.update_of_ne side.other_ne ..
  have grows (place : Side) (before : (session.endpoint place).received = true) :
      ((session.set side endpoint).endpoint place).received = true := by
    rcases Side.eq_or_eq_other place side with rfl | rfl
    · rw [at_side]
      exact received before
    · rw [at_other]
      exact before
  refine ⟨?_, ?_, ?_, continuous.alone, continuous.unharmed⟩
  · intro place
    rcases Side.eq_or_eq_other place side with rfl | rfl
    · rw [at_side]
      exact sound
    · rw [at_other]
      exact continuous.sound _
  · rintro place (acked | own)
    · exact grows _ (continuous.engaged place (.inl acked))
    · rcases Side.eq_or_eq_other place side with rfl | rfl
      · rw [at_side] at own
        exact grows _ (engaged own)
      · rw [at_other] at own
        exact grows _ (continuous.engaged _ (.inr own))
  · intro handshake listed
    have consistent := continuous.consistent handshake listed
    refine { consistent with first := fun fresh place waits => ?_ }
    rcases Side.eq_or_eq_other place side with rfl | rfl
    · rw [at_side]
      exact first handshake listed fresh waits
    · rw [at_other]
      exact consistent.first fresh _ waits

theorem Continuous.touch (sound : endpoint.Sound (agreedSettings configs))
    (same : endpoint.hadCallis = (session.endpoint side).hadCallis)
    (received : (session.endpoint side).received = true → endpoint.received = true)
    (engaged : endpoint.sent = true ∨ endpoint.registering ≠ [] →
      (session.endpoint side.other).received = true) :
    (session.set side endpoint).Continuous configs := by
  refine continuous.set sound ?_ received engaged
  intro handshake listed fresh waits
  rw [same]
  exact (continuous.consistent handshake listed).first fresh side waits

theorem Continuous.transit {requests acks : List (Side × PeerMessageId)}
    (acked : ∀ sender streamId, (sender, streamId) ∈ acks →
      (session.endpoint sender.other).received = true) :
    ({ session with requests, acks } : BlobSession).Continuous configs :=
  { continuous with
    engaged := by
      rintro sender (⟨streamId, listed⟩ | own)
      · exact acked sender streamId listed
      · exact continuous.engaged sender (.inr own) }

theorem Continuous.request (requests : List (Side × PeerMessageId)) :
    ({ session with requests } : BlobSession).Continuous configs :=
  continuous.transit fun sender streamId listed =>
    continuous.engaged sender (.inl ⟨streamId, listed⟩)

theorem Continuous.acknowledge (received : (session.endpoint side).received = true) :
    ({ session with acks := (side.other, streamId) :: session.acks } :
      BlobSession).Continuous configs := by
  refine continuous.transit ?_
  intro sender other listed
  rcases mem_cons.mp listed with isLast | before
  · cases isLast
    rw [Side.other_other]
    exact received
  · exact continuous.engaged sender (.inl ⟨other, before⟩)

end Continuous

theorem inProgress_of_ends (waits : handshake.ends side ≠ .over) : handshake.inProgress = true := by
  unfold Handshake.inProgress
  rw [Bool.or_eq_true, decide_eq_true_eq, decide_eq_true_eq]
  cases side with
  | left => exact .inl waits
  | right => exact .inr waits

theorem Consistent.moved {hadCallis : Side → Bool} {next : HandshakeEnd}
    {response : Option (Bool × HelloPayload)}
    (consistent : Consistent configs hadCallis handshake) (waits : handshake.ends side ≠ .over)
    (answered : ∀ resumed payload, response = some (resumed, payload) →
      resumed = handshake.reconnect ∧ payload = blobHelloResponse (agreedSettings configs))
    (established : ∀ resume settings, next = .established resume settings →
      resume = handshake.reconnect ∧ settings = agreedSettings configs) :
    Consistent configs hadCallis
      { handshake with response, ends := Function.update handshake.ends side next } where
  response := answered
  established := by
    intro place resume settings isEstablished
    dsimp only at isEstablished
    by_cases here : place = side
    · subst here
      rw [Function.update_self] at isEstablished
      exact established resume settings isEstablished
    · rw [Function.update_of_ne here] at isEstablished
      exact consistent.established place resume settings isEstablished
  first := by
    intro fresh place stillWaits
    dsimp only at stillWaits
    by_cases here : place = side
    · subst here
      exact consistent.first fresh place waits
    · rw [Function.update_of_ne here] at stillWaits
      exact consistent.first fresh place stillWaits

section Continuous

variable (continuous : session.Continuous configs)
  (found : session.handshakes[index]? = some handshake)

include continuous found

theorem Continuous.moved {moved : Handshake} (waits : handshake.ends side ≠ .over)
    (same : moved.reconnect = handshake.reconnect)
    (consistent : Consistent configs (fun side => (session.endpoint side).hadCallis) moved) :
    ({ session with handshakes := session.handshakes.set index moved } :
      BlobSession).Continuous configs := by
  have before {i : Nat} {other : Handshake}
      (listed : (session.handshakes.set index moved)[i]? = some other)
      (progress : other.inProgress = true) :
      ∃ old, session.handshakes[i]? = some old ∧ old.inProgress = true ∧
        old.reconnect = other.reconnect := by
    rcases Slots.of_getElem?_set listed with ⟨rfl, rfl⟩ | ⟨_, unmoved⟩
    · exact ⟨handshake, found, inProgress_of_ends waits, same.symm⟩
    · exact ⟨other, unmoved, progress, rfl⟩
  refine { continuous with consistent := ?_, alone := ?_ }
  · intro other listed
    rcases mem_or_eq_of_mem_set listed with unmoved | rfl
    · exact continuous.consistent other unmoved
    · exact consistent
  · intro i j first second atFirst atSecond apart firstProgress secondProgress
    obtain ⟨oldFirst, wasFirst, firstBefore, reconnect⟩ := before atFirst firstProgress
    obtain ⟨oldSecond, wasSecond, secondBefore, _⟩ := before atSecond secondProgress
    rw [← reconnect]
    exact continuous.alone i j oldFirst oldSecond wasFirst wasSecond apart firstBefore secondBefore

theorem Continuous.over (waits : handshake.ends side ≠ .over) :
    (session.move index handshake side .over).Continuous configs := by
  have consistent := continuous.consistent handshake (mem_of_getElem? found)
  exact continuous.moved found waits rfl (consistent.moved waits consistent.response nofun)

theorem continuous_answer
    (recognised : handshake.reconnect = true →
      (session.endpoint handshake.dialler.other).hadCallis = true ∨
        (session.endpoint handshake.dialler.other).hasActiveStreams = true)
    (stepped : session.answerStep configs index handshake = some next) :
    next.Continuous configs := by
  obtain ⟨⟨reading, _⟩, answered⟩ := ite_none_right_eq_some.mp stepped
  have waits : handshake.ends handshake.dialler.other ≠ .over := by rw [reading]; nofun
  have consistent := continuous.consistent handshake (mem_of_getElem? found)
  split at answered
  · cases answered
    exact continuous.over found waits
  · next resume settings accepted =>
      cases answered
      obtain ⟨_, isAnswer, isAccepted⟩ := mapped_eq_ok accepted
      cases isAccepted
      cases answerBlobHello_agreed isAnswer
      have resumes : (handshake.reconnect &&
          ((session.endpoint handshake.dialler.other).hadCallis ||
            (session.endpoint handshake.dialler.other).hasActiveStreams)) =
          handshake.reconnect := by
        cases reconnect : handshake.reconnect with
        | false => rfl
        | true =>
          rw [Bool.true_and, Bool.or_eq_true]
          exact recognised reconnect
      refine continuous.moved found waits rfl (consistent.moved waits ?_ ?_)
      · intro resumed payload isResponse
        cases isResponse
        exact ⟨resumes, rfl⟩
      · intro resume settings isEstablished
        cases isEstablished
        exact ⟨resumes, rfl⟩

theorem continuous_readResponse
    (stepped : session.readResponseStep configs index handshake = some next) :
    next.Continuous configs := by
  obtain ⟨reading, taken⟩ := ite_none_right_eq_some.mp stepped
  have waits : handshake.ends handshake.dialler ≠ .over := by rw [reading]; nofun
  have consistent := continuous.consistent handshake (mem_of_getElem? found)
  split at taken
  · cases taken
  · next resumed payload isResponse =>
      obtain ⟨rfl, rfl⟩ := consistent.response resumed payload isResponse
      split at taken
      · cases taken
        exact continuous.over found waits
      · next resume settings checked =>
          cases taken
          refine continuous.moved found waits rfl (consistent.moved waits consistent.response ?_)
          intro _ _ isEstablished
          cases isEstablished
          unfold checkResponse at checked
          split at checked
          · cases checked
          · obtain ⟨_, isValid, isChecked⟩ := mapped_eq_ok checked
            cases isChecked
            exact ⟨Bool.and_self _, validateBlobHelloResponse_ok isValid⟩

theorem continuous_connected
    (stepped : session.connectedStep index handshake side = some next) :
    next.Continuous configs := by
  unfold connectedStep at stepped
  split at stepped
  · next resume settings isEstablished =>
      have consistent := continuous.consistent handshake (mem_of_getElem? found)
      obtain ⟨rfl, rfl⟩ := consistent.established side resume settings isEstablished
      have waits : handshake.ends side ≠ .over := by rw [isEstablished]; nofun
      have sound := continuous.sound side
      rw [BlobEndpoint.addCallis_keeps sound
        fun fresh => consistent.first fresh side waits] at stepped
      cases stepped
      -- any other handshake that the side still has to end is one with RECONNECT
      have resumed (other : Handshake)
          (listed : other ∈ (session.move index handshake side .over).handshakes)
          (fresh : other.reconnect = false) (stillWaits : other.ends side ≠ .over) :
          false = true := by
        obtain ⟨place, atPlace⟩ := mem_iff_getElem?.mp listed
        rcases Slots.of_getElem?_set atPlace with ⟨_, rfl⟩ | ⟨apart, unmoved⟩
        · exact absurd (Function.update_self ..) stillWaits
        · have reconnect :=
            continuous.alone place index other handshake unmoved found (Ne.symm apart)
            (inProgress_of_ends stillWaits) (inProgress_of_ends waits)
          exact fresh.symm.trans reconnect
      have completed := (continuous.over found waits).set
        (BlobEndpoint.sound_addCallis sound ⟨index, .blob⟩)
        (fun other listed fresh stillWaits => (resumed other listed fresh stillWaits).symm)
        id (continuous.engaged side ∘ .inr)
      have unharmed : session.failed ++ ([] : List PeerMessageId).map (side, ·) = session.failed :=
        append_nil _
      rw [unharmed]
      exact completed
  · cases stepped

end Continuous

theorem continuous_dial (continuous : session.Continuous configs)
    (recognised : session.Recognised (.dial side)) :
    ({ session with handshakes := session.handshakes ++
      [⟨side, (session.endpoint side).hadCallis, none, fun _ => .handshaking⟩] } :
        BlobSession).Continuous configs := by
  simp only [Recognised] at recognised
  refine { continuous with consistent := ?_, alone := ?_ }
  · intro handshake listed
    rcases mem_append.mp listed with before | last
    · exact continuous.consistent handshake before
    · cases mem_singleton.mp last
      refine ⟨nofun, nofun, ?_⟩
      intro fresh place _
      rw [if_neg (Bool.eq_false_iff.mp fresh)] at recognised
      rcases Side.eq_or_eq_other place side with rfl | rfl
      · exact fresh
      · exact recognised.1
  · intro i j first second atFirst atSecond apart firstProgress secondProgress
    rcases Slots.getElem?_concat_eq_some.mp atFirst with wasFirst | ⟨isLast, rfl⟩
    · have listed := mem_of_getElem? wasFirst
      rcases Slots.getElem?_concat_eq_some.mp atSecond with wasSecond | ⟨_, rfl⟩
      · exact continuous.alone i j first second wasFirst wasSecond apart firstProgress
          secondProgress
      · split at recognised
        · exact recognised first listed firstProgress
        · exact absurd firstProgress (Bool.eq_false_iff.mp (recognised.2 first listed))
    · rcases Slots.getElem?_concat_eq_some.mp atSecond with wasSecond | ⟨isAlsoLast, _⟩
      · have listed := mem_of_getElem? wasSecond
        split at recognised
        · assumption
        · exact absurd secondProgress (Bool.eq_false_iff.mp (recognised.2 second listed))
      · exact absurd (isLast.trans isAlsoLast.symm) apart

theorem continuous_activate
    {settings : BlobCallisSettings} (continuous : session.Continuous configs)
    (stepped : session.step configs (.activate side streamId settings) = some next) :
    next.Continuous configs := by
  obtain ⟨listed, activated⟩ := ite_none_right_eq_some.mp stepped
  have sound := continuous.sound side
  have had : (session.endpoint side).hadCallis = true :=
    sound.hadCallis_of fun _ untouched => by rw [untouched] at listed; cases listed
  have engaged := continuous.engaged side ∘ .inr
  dsimp only at activated
  split at activated
  · next present =>
      cases activated
      exact (continuous.acknowledge (sound.received (ne_nil_of_mem present))).touch
        (sound.engage had sound.registering sound.streams sound.received) rfl id engaged
  · split at activated
    · cases activated
      refine (continuous.touch (sound.engage had sound.registering sound.streams fun _ => rfl)
        rfl (fun _ => rfl) engaged).acknowledge ?_
      rw [endpoint_set_self]
    · cases activated
      exact continuous.touch (sound.engage had sound.registering sound.streams sound.received)
        rfl id engaged

theorem continuous_step {label : SessionLabel} (continuous : session.Continuous configs)
    (stepped : session.step configs label = some next) (recognised : session.Recognised label) :
    next.Continuous configs := by
  have engaged (side : Side) := continuous.engaged side ∘ .inr
  cases label with
  | sendBlob side streamId =>
    cases stepped
    exact continuous.request _
  | acceptRequest side streamId =>
    obtain ⟨_, ⟨⟩⟩ := ite_none_right_eq_some.mp stepped
    exact (continuous.request _).touch ((continuous.sound side).pending _) rfl id (engaged side)
  | dropRequest side streamId =>
    cases stepped
    exact continuous.touch ((continuous.sound side).pending _) rfl id (engaged side)
  | currentSettings side streamId callis =>
    obtain ⟨settings, found, rfl⟩ := map_eq_some_iff.mp stepped
    have sound := continuous.sound side
    exact continuous.touch (sound.engage (sound.hadCallis_of_lookup found) sound.registering
      sound.streams sound.received) rfl id (engaged side)
  | activate side streamId settings =>
    exact continuous_activate continuous stepped
  | ensureBlobCallis side streamId callis =>
    obtain ⟨acked, taken⟩ := ite_none_right_eq_some.mp stepped
    obtain ⟨settings, found, rfl⟩ := map_eq_some_iff.mp taken
    have sound := continuous.sound side
    have isReceived := continuous.engaged side (.inl ⟨streamId, acked⟩)
    refine (continuous.transit ?_).touch (sound.engage (sound.hadCallis_of_lookup found) ?_
      sound.streams sound.received) rfl id fun _ => isReceived
    · intro sender other listed
      exact continuous.engaged sender (.inl ⟨other, mem_of_mem_erase listed⟩)
    · intro stream listed
      rcases mem_cons.mp listed with rfl | before
      · exact sound.pool callis settings found
      · exact sound.registering stream before
  | registerStream side streamId settings =>
    obtain ⟨listed, ⟨⟩⟩ := ite_none_right_eq_some.mp stepped
    have sound := continuous.sound side
    have had : (session.endpoint side).hadCallis = true :=
      sound.hadCallis_of fun _ untouched => by rw [untouched] at listed; cases listed
    refine continuous.touch (sound.engage had ?_ ?_ sound.received) rfl id
      fun _ => engaged side (.inr (ne_nil_of_mem listed))
    · exact fun stream before => sound.registering stream (mem_of_mem_erase before)
    · intro stream isStream
      rcases mem_cons.mp isStream with rfl | before
      · exact sound.registering _ listed
      · exact sound.streams stream (mem_of_mem_filter before)
  | unregisterStream side streamId =>
    cases stepped
    exact continuous.touch (BlobEndpoint.sound_removeStream (continuous.sound side) streamId) rfl
      id (engaged side)
  | removeRecvStream side streamId =>
    cases stepped
    have sound := BlobEndpoint.sound_finish (continuous.sound side) (· ≠ streamId) fun _ => true
    rw [filter_true] at sound
    exact continuous.touch sound rfl id (engaged side)
  | enqueueWrite side messageId stream =>
    obtain ⟨admitted, ⟨⟩⟩ := ite_none_right_eq_some.mp stepped
    have sound := continuous.sound side
    have had : (session.endpoint side).hadCallis = true := by
      apply sound.hadCallis_of
      intro _ untouched
      have received := continuous.engaged side.other ∘ .inr ∘ .inl
      rw [Side.other_other] at received
      rw [untouched] at admitted received
      rcases admitted with ⟨⟨⟩⟩ | ⟨⟨⟩⟩ | other
      cases received other
    exact continuous.touch (sound.engage had sound.registering sound.streams sound.received) rfl
      id (engaged side)
  | finishWrite side messageId =>
    cases stepped
    have sound :=
      BlobEndpoint.sound_finish (continuous.sound side) (fun _ => true) (·.1 ≠ messageId)
    rw [filter_true] at sound
    exact continuous.touch sound rfl id (engaged side)
  | removeCallis side callis =>
    cases stepped
    exact continuous.touch (BlobEndpoint.sound_removeCallis (continuous.sound side) callis) rfl id
      (engaged side)
  | dial side =>
    cases stepped
    exact continuous_dial continuous recognised
  | answer index =>
    obtain ⟨handshake, found, answered⟩ := bind_eq_some_iff.mp stepped
    exact continuous_answer continuous found (recognised handshake found) answered
  | readResponse index =>
    obtain ⟨handshake, found, taken⟩ := bind_eq_some_iff.mp stepped
    exact continuous_readResponse continuous found taken
  | breaks index side =>
    obtain ⟨handshake, found, broken⟩ := bind_eq_some_iff.mp stepped
    obtain ⟨handshaking, ⟨⟩⟩ := ite_none_right_eq_some.mp broken
    exact continuous.over found (by rw [handshaking]; nofun)
  | connected index side =>
    obtain ⟨handshake, found, connected⟩ := bind_eq_some_iff.mp stepped
    exact continuous_connected continuous found connected

theorem continuous_new : new.Continuous configs where
  sound _ := ⟨fun _ => ⟨[], rfl⟩, nofun, nofun, nofun, fun some => absurd rfl some⟩
  engaged := by
    rintro side (⟨_, ⟨⟩⟩ | ⟨⟨⟩⟩ | some)
    exact absurd rfl some
  consistent := nofun
  alone := nofun
  unharmed := rfl

end BlobSession

end AureliaPeering.Blob
