import AureliaPeering.Ids

/-!
The configuration of a domus: its fields, their defaults, and the validation that every
configuration passes before it is used.

A duration is a number of nanoseconds.  The memory of the host, which caps the blob buffers, is an
argument.  What the clamp reports goes to the log only; the cap is what the validation reads.
-/

namespace AureliaPeering.Config

abbrev Duration := Nat

def Duration.fromSecs (secs : Nat) : Duration := secs * 1000000000

/-- The debug text of a duration of whole seconds, which the bounds below are. -/
def Duration.debug (duration : Duration) : String := toString (duration / 1000000000) ++ "s"

def defaultTcpBlobChunkSize : Nat := 1200
def defaultTcpBlobAckWindow : Nat := 1024
def defaultSocketBlobChunkSize : Nat := 128 * 1024
def defaultSocketBlobAckWindow : Nat := 32

def maxSendQueueSize : Nat := 4096
def maxMaxPayloadLen : Nat := 64 * 1024 * 1024
def maxInboundHandshakeLimitTotal : Nat := 1024
def maxInboundHandshakeLimitPerPeer : Nat := 64
def maxParallelCallisPerPeer : Nat := 64
def maxBlobChunkSize : Nat := 1024 * 1024
def maxBlobAckWindow : Nat := 4096
def maxBlobBufferBytes : Nat := 8 * 1024 * 1024 * 1024
def maxReconnectBackoffSteps : Nat := 16
def maxSendTimeout : Duration := .fromSecs 300
def maxCallisConnectTimeout : Duration := .fromSecs 300
def maxAcceptTimeout : Duration := .fromSecs 60
def maxKeepaliveInterval : Duration := .fromSecs 300
def maxListenerDelay : Duration := .fromSecs 60
def maxListenerReconnectTimeout : Duration := .fromSecs 300
def maxSocketCallbackTimeout : Duration := .fromSecs 60
def maxSocketHandshakeTimeout : Duration := .fromSecs 120
def maxTcpCallbackTimeout : Duration := .fromSecs 120
def maxTcpHandshakeTimeout : Duration := .fromSecs 300
def maxLimitedLogInterval : Duration := .fromSecs 3600
def maxReconnectBackoff : Duration := .fromSecs 300
def maxTabernaAcceptQueueSize : Nat := 1024

structure BlobWindowConfig where
  chunkSize : Nat
  ackWindow : Nat
deriving DecidableEq, Repr

structure DomusConfig where
  sendQueueSize : Nat := 128
  sendTimeout : Duration := .fromSecs 30
  callisConnectTimeout : Duration := .fromSecs 15
  acceptTimeout : Duration := .fromSecs 5
  tabernaAcceptQueueSize : Nat := 2
  keepaliveInterval : Duration := .fromSecs 15
  listenerDelay : Duration := .fromSecs 5
  listenerReconnectTimeout : Duration := .fromSecs 20
  reconnectBackoff : List Duration := [.fromSecs 1, .fromSecs 2, .fromSecs 4]
  socketCallbackTimeout : Duration := .fromSecs 2
  socketHandshakeTimeout : Duration := .fromSecs 5
  tcpCallbackTimeout : Duration := .fromSecs 10
  tcpHandshakeTimeout : Duration := .fromSecs 10
  limitedLogInterval : Duration := .fromSecs 120
  inboundHandshakeLimitTotal : Nat := 64
  inboundHandshakeLimitPerPeer : Nat := 3
  maxParallelCallisPerPeer : Nat := 8
  blobWindow : BlobWindowConfig := ⟨defaultTcpBlobChunkSize, defaultTcpBlobAckWindow⟩
  blobOutboundBufferBytes : Nat := 256 * 1024 * 1024
  blobInboundBufferBytes : Nat := 256 * 1024 * 1024
  maxPayloadLen : Nat := 8 * 1024 * 1024
deriving DecidableEq, Repr

inductive TransportKind where
  | tcp
  | socket
deriving DecidableEq, Repr

namespace DomusConfig

def applyTransportDefaults (config : DomusConfig) (transport : TransportKind) : DomusConfig :=
  if transport = .socket ∧
      config.blobWindow = ⟨defaultTcpBlobChunkSize, defaultTcpBlobAckWindow⟩ then
    { config with blobWindow := ⟨defaultSocketBlobChunkSize, defaultSocketBlobAckWindow⟩ }
  else config

end DomusConfig

def configRangeError (field : String) (min max value : Nat) : AureliaError :=
  .withMessage .invalidConfig
    (field ++ ": expected " ++ toString min ++ "..=" ++ toString max ++ ", got " ++ toString value)

def configMaxError (field : String) (max value : Nat) : AureliaError :=
  .withMessage .invalidConfig
    (field ++ ": expected <= " ++ toString max ++ ", got " ++ toString value)

def configRelationError (field message : String) : AureliaError :=
  .withMessage .invalidConfig (field ++ ": " ++ message)

def checkRange (field : String) (value max : Nat) : Except AureliaError Unit :=
  if value = 0 ∨ max < value then .error (configRangeError field 1 max value) else .ok ()

def checkMaxU64 (field : String) (value max : Nat) : Except AureliaError Unit :=
  if max < value then .error (configMaxError field max value) else .ok ()

def checkMaxDuration (field : String) (value max : Duration) : Except AureliaError Unit :=
  if max < value then .error (configRelationError field ("must be <= " ++ max.debug)) else .ok ()

def checkRangeDuration (field : String) (value max : Duration) : Except AureliaError Unit :=
  if value = 0 then .error (configRelationError field "must be > 0")
  else checkMaxDuration field value max

def checkLe (field otherField : String) (value otherValue : Nat) : Except AureliaError Unit :=
  if otherValue < value then .error (configRelationError field ("must be <= " ++ otherField))
  else .ok ()

def checkGeU64 (field minLabel : String) (value min : Nat) : Except AureliaError Unit :=
  if value < min then
    .error (configRelationError field ("must be >= " ++ minLabel ++ " (" ++ toString min ++ ")"))
  else .ok ()

/-- The loop over the entries of the schedule, from the entry numbered `index` on. -/
def checkBackoffEntries : Nat → List Duration → Except AureliaError Unit
  | _, [] => .ok ()
  | index, value :: rest =>
    if maxReconnectBackoff < value then
      .error (configRelationError "reconnect_backoff"
        ("entry " ++ toString index ++ " must be <= " ++ maxReconnectBackoff.debug))
    else checkBackoffEntries (index + 1) rest

def checkBackoff (schedule : List Duration) : Except AureliaError Unit :=
  if maxReconnectBackoffSteps < schedule.length then
    .error (configRelationError "reconnect_backoff"
      ("must have at most " ++ toString maxReconnectBackoffSteps ++ " entries"))
  else checkBackoffEntries 0 schedule

/-- The reservation of one stream, refused if it does not fit a `u64`. -/
def requiredBlobBytes (window : BlobWindowConfig) : Except AureliaError Nat :=
  let required := window.chunkSize * window.ackWindow
  if u64Max < required then
    .error (configRelationError "blob_window" "chunk_size * ack_window overflows reservation size")
  else .ok required

def validateDomusConfig (config : DomusConfig) (bufferCap : Nat) : Except AureliaError Unit := do
  checkRange "send_queue_size" config.sendQueueSize maxSendQueueSize
  checkRange "taberna_accept_queue_size" config.tabernaAcceptQueueSize maxTabernaAcceptQueueSize
  checkRange "max_payload_len" config.maxPayloadLen maxMaxPayloadLen
  checkRange "inbound_handshake_limit_total" config.inboundHandshakeLimitTotal
    maxInboundHandshakeLimitTotal
  checkRange "inbound_handshake_limit_per_peer" config.inboundHandshakeLimitPerPeer
    maxInboundHandshakeLimitPerPeer
  checkLe "inbound_handshake_limit_per_peer" "inbound_handshake_limit_total"
    config.inboundHandshakeLimitPerPeer config.inboundHandshakeLimitTotal
  checkRange "max_parallel_callis_per_peer" config.maxParallelCallisPerPeer
    Config.maxParallelCallisPerPeer
  checkRange "blob_window.chunk_size" config.blobWindow.chunkSize maxBlobChunkSize
  checkRange "blob_window.ack_window" config.blobWindow.ackWindow maxBlobAckWindow
  checkMaxU64 "blob_outbound_buffer_bytes" config.blobOutboundBufferBytes bufferCap
  checkMaxU64 "blob_inbound_buffer_bytes" config.blobInboundBufferBytes bufferCap
  let required ← requiredBlobBytes config.blobWindow
  checkGeU64 "blob_outbound_buffer_bytes" "blob_window.chunk_size * blob_window.ack_window"
    config.blobOutboundBufferBytes required
  checkGeU64 "blob_inbound_buffer_bytes" "blob_window.chunk_size * blob_window.ack_window"
    config.blobInboundBufferBytes required
  checkRangeDuration "send_timeout" config.sendTimeout maxSendTimeout
  checkRangeDuration "callis_connect_timeout" config.callisConnectTimeout maxCallisConnectTimeout
  checkLe "callis_connect_timeout" "send_timeout" config.callisConnectTimeout config.sendTimeout
  checkRangeDuration "accept_timeout" config.acceptTimeout maxAcceptTimeout
  checkLe "accept_timeout" "send_timeout" config.acceptTimeout config.sendTimeout
  checkMaxDuration "keepalive_interval" config.keepaliveInterval maxKeepaliveInterval
  checkMaxDuration "listener_delay" config.listenerDelay maxListenerDelay
  checkMaxDuration "listener_reconnect_timeout" config.listenerReconnectTimeout
    maxListenerReconnectTimeout
  checkMaxDuration "socket_callback_timeout" config.socketCallbackTimeout maxSocketCallbackTimeout
  checkMaxDuration "socket_handshake_timeout" config.socketHandshakeTimeout
    maxSocketHandshakeTimeout
  checkMaxDuration "tcp_callback_timeout" config.tcpCallbackTimeout maxTcpCallbackTimeout
  checkMaxDuration "tcp_handshake_timeout" config.tcpHandshakeTimeout maxTcpHandshakeTimeout
  checkMaxDuration "limited_log_interval" config.limitedLogInterval maxLimitedLogInterval
  checkBackoff config.reconnectBackoff

def blobBufferCapBytes (totalMemoryBytes : Option Nat) : Nat :=
  match totalMemoryBytes with
  | some total => min maxBlobBufferBytes (total / 2)
  | none => maxBlobBufferBytes

def clampBlobBuffers (config : DomusConfig) (totalMemoryBytes : Option Nat) : DomusConfig × Nat :=
  let capBytes := blobBufferCapBytes totalMemoryBytes
  ({ config with
    blobOutboundBufferBytes := min config.blobOutboundBufferBytes capBytes
    blobInboundBufferBytes := min config.blobInboundBufferBytes capBytes }, capBytes)

def normalizeDomusConfig (config : DomusConfig) (totalMemoryBytes : Option Nat) :
    Except AureliaError DomusConfig :=
  let (config, capBytes) := clampBlobBuffers config totalMemoryBytes
  (validateDomusConfig config capBytes).map fun _ => config

def normalizeDomusConfigForTransport (config : DomusConfig) (transport : TransportKind)
    (totalMemoryBytes : Option Nat) : Except AureliaError DomusConfig :=
  normalizeDomusConfig (config.applyTransportDefaults transport) totalMemoryBytes

section Checks

theorem checkRange_eq_ok_iff (field : String) (value max : Nat) :
    checkRange field value max = .ok () ↔ 1 ≤ value ∧ value ≤ max := by
  unfold checkRange
  split
  · simp only [reduceCtorEq, false_iff]
    omega
  · simp only [true_iff]
    omega

theorem checkGeU64_eq_ok_iff (field minLabel : String) (value min : Nat) :
    checkGeU64 field minLabel value min = .ok () ↔ min ≤ value := by
  unfold checkGeU64
  split
  · simp only [reduceCtorEq, false_iff]
    omega
  · simp only [true_iff]
    omega

end Checks

/-- What the later modules use of an accepted configuration. -/
structure Accepted (config : DomusConfig) : Prop where
  maxPayloadLen : 1 ≤ config.maxPayloadLen ∧ config.maxPayloadLen ≤ maxMaxPayloadLen
  chunkSize : 1 ≤ config.blobWindow.chunkSize ∧ config.blobWindow.chunkSize ≤ maxBlobChunkSize
  ackWindow : 1 ≤ config.blobWindow.ackWindow ∧ config.blobWindow.ackWindow ≤ maxBlobAckWindow
  outbound : config.blobWindow.chunkSize * config.blobWindow.ackWindow ≤
    config.blobOutboundBufferBytes
  inbound : config.blobWindow.chunkSize * config.blobWindow.ackWindow ≤
    config.blobInboundBufferBytes

theorem accepted_of_validate {config : DomusConfig} {bufferCap : Nat}
    (valid : validateDomusConfig config bufferCap = .ok ()) : Accepted config := by
  unfold validateDomusConfig at valid
  obtain ⟨_, _, valid⟩ := bind_eq_ok valid
  obtain ⟨_, _, valid⟩ := bind_eq_ok valid
  obtain ⟨_, payload, valid⟩ := bind_eq_ok valid
  obtain ⟨_, _, valid⟩ := bind_eq_ok valid
  obtain ⟨_, _, valid⟩ := bind_eq_ok valid
  obtain ⟨_, _, valid⟩ := bind_eq_ok valid
  obtain ⟨_, _, valid⟩ := bind_eq_ok valid
  obtain ⟨_, chunk, valid⟩ := bind_eq_ok valid
  obtain ⟨_, window, valid⟩ := bind_eq_ok valid
  obtain ⟨_, _, valid⟩ := bind_eq_ok valid
  obtain ⟨_, _, valid⟩ := bind_eq_ok valid
  obtain ⟨required, computed, valid⟩ := bind_eq_ok valid
  obtain ⟨_, outbound, valid⟩ := bind_eq_ok valid
  obtain ⟨_, inbound, _⟩ := bind_eq_ok valid
  have required_eq : config.blobWindow.chunkSize * config.blobWindow.ackWindow = required := by
    unfold requiredBlobBytes at computed
    simp only at computed
    split at computed
    · cases computed
    · exact Except.ok.inj computed
  exact {
    maxPayloadLen := (checkRange_eq_ok_iff _ _ _).mp payload
    chunkSize := (checkRange_eq_ok_iff _ _ _).mp chunk
    ackWindow := (checkRange_eq_ok_iff _ _ _).mp window
    outbound := required_eq ▸ (checkGeU64_eq_ok_iff _ _ _ _).mp outbound
    inbound := required_eq ▸ (checkGeU64_eq_ok_iff _ _ _ _).mp inbound }

theorem accepted_of_normalize {config normal : DomusConfig} {totalMemoryBytes : Option Nat}
    (normalized : normalizeDomusConfig config totalMemoryBytes = .ok normal) :
    Accepted normal := by
  unfold normalizeDomusConfig at normalized
  simp only at normalized
  cases valid : validateDomusConfig (clampBlobBuffers config totalMemoryBytes).1
      (clampBlobBuffers config totalMemoryBytes).2 with
  | error error => simp [valid, Except.map] at normalized
  | ok value =>
    simp only [valid, Except.map, Except.ok.injEq] at normalized
    exact normalized ▸ accepted_of_validate valid

/-- A check that fails reports an invalid configuration. -/
def ReportsInvalid {α : Type} (result : Except AureliaError α) : Prop :=
  ∀ error, result = .error error → error.kind = .invalidConfig

theorem ReportsInvalid.bind {α β : Type} {first : Except AureliaError α}
    {next : α → Except AureliaError β} (here : ReportsInvalid first)
    (later : ∀ value, ReportsInvalid (next value)) : ReportsInvalid (first >>= next) := by
  intro error failed
  cases first with
  | error cause =>
    have same : cause = error := Except.error.inj failed
    exact here error (congrArg _ same)
  | ok value => exact later value error failed

theorem ReportsInvalid.ite {α : Type} {condition : Prop} [Decidable condition]
    {error : AureliaError} (kind : error.kind = .invalidConfig) {rest : Except AureliaError α}
    (later : ReportsInvalid rest) : ReportsInvalid (if condition then .error error else rest) := by
  split
  · rintro _ ⟨⟩
    exact kind
  · exact later

theorem reportsInvalid_ok {α : Type} (value : α) :
    ReportsInvalid (.ok value : Except AureliaError α) := by
  rintro _ ⟨⟩

theorem checkMaxDuration_reportsInvalid (field : String) (value max : Duration) :
    ReportsInvalid (checkMaxDuration field value max) :=
  .ite rfl (reportsInvalid_ok ())

theorem checkBackoffEntries_reportsInvalid (index : Nat) (schedule : List Duration) :
    ReportsInvalid (checkBackoffEntries index schedule) := by
  induction schedule generalizing index with
  | nil => exact reportsInvalid_ok ()
  | cons value rest ih => exact .ite rfl (ih (index + 1))

theorem validateDomusConfig_reportsInvalid (config : DomusConfig) (bufferCap : Nat) :
    ReportsInvalid (validateDomusConfig config bufferCap) := by
  unfold validateDomusConfig
  repeat' refine ReportsInvalid.bind ?_ fun _ => ?_
  all_goals first
    | exact .ite rfl (reportsInvalid_ok _)
    | exact .ite rfl (checkMaxDuration_reportsInvalid _ _ _)
    | exact .ite rfl (checkBackoffEntries_reportsInvalid _ _)

theorem default_normalizes (transport : TransportKind) :
    ∃ normal, normalizeDomusConfigForTransport {} transport none = .ok normal := by
  cases transport with
  | tcp | socket => exact ⟨_, rfl⟩

end AureliaPeering.Config
