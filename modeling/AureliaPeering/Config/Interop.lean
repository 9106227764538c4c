import AureliaPeering.Peer.Negotiation

/-!
Two hosts with validated configurations that change over time, and the control frames they send
each other.

A blob hello carries what the dialler's configuration holds when it is sent; the answer is
computed from the acceptor's configuration when it is read.  A reader takes its limit from the
configuration of its host between frames.
-/

namespace AureliaPeering.Config

open Peer Wire List

inductive Host where
  | left
  | right
deriving DecidableEq, Repr

def Host.other : Host → Host
  | left => right
  | right => left

structure Interop where
  config : Host → DomusConfig
  limit : Host → Nat
  /-- Blob hellos that were sent and not yet read, with their senders. -/
  hellos : List (Host × HelloPayload)
  /-- The settings of the blob callis established so far. -/
  agreed : List BlobCallisSettings

inductive InteropLabel where
  | update (host : Host) (next : DomusConfig) (totalMemoryBytes : Option Nat)
  | refreshLimit (host : Host)
  | dial (host : Host)
  | accept (dialler : Host) (chunk window : Nat)

namespace Interop

/-- What the other host answers to a hello that its limit lets it read. -/
def answer (run : Interop) (dialler : Host) (hello : HelloPayload) :
    Except AureliaError BlobCallisSettings :=
  let acceptor := run.config dialler.other
  if hello.toBytes.length ≤ acceptor.maxPayloadLen then
    (HelloPayload.fromBytes hello.toBytes).bind (answerBlobHello acceptor)
  else .error (.new .protocolViolation)

/-- The dialler reads the answer within its own limit and checks it against what it proposed. -/
def conclude (run : Interop) (dialler : Host) (chunk window : Nat) (hello : HelloPayload) :
    Except AureliaError BlobCallisSettings :=
  if hello.toBytes.length ≤ run.limit dialler then
    (HelloPayload.fromBytes hello.toBytes).bind (validateBlobHelloResponse chunk window)
  else .error (.new .protocolViolation)

def accept (run : Interop) (dialler : Host) (chunk window : Nat) : Option Interop :=
  let hello := HelloPayload.blob chunk window
  if (dialler, hello) ∈ run.hellos then
    match (run.answer dialler hello).bind
        (run.conclude dialler chunk window ∘ blobHelloResponse) with
    | .error _ => some { run with hellos := run.hellos.erase (dialler, hello) }
    | .ok settings =>
      some { run with
        hellos := run.hellos.erase (dialler, hello), agreed := settings :: run.agreed }
  else none

def step (run : Interop) : InteropLabel → Option Interop
  | .update host next totalMemoryBytes =>
    match normalizeDomusConfig next totalMemoryBytes with
    | .error _ => some run
    | .ok normal => some { run with config := Function.update run.config host normal }
  | .refreshLimit host =>
    some { run with limit := Function.update run.limit host (run.config host).maxPayloadLen }
  | .dial host => some { run with hellos := (host, blobHello (run.config host)) :: run.hellos }
  | .accept dialler chunk window => run.accept dialler chunk window

def start (left right : DomusConfig) : Interop where
  config
    | .left => left
    | .right => right
  limit
    | .left => left.maxPayloadLen
    | .right => right.maxPayloadLen
  hellos := []
  agreed := []

def system : Machine.System Interop InteropLabel :=
  .ofStep (fun run => ∃ left right leftMemory rightMemory leftConfig rightConfig,
    normalizeDomusConfig left leftMemory = .ok leftConfig ∧
    normalizeDomusConfig right rightMemory = .ok rightConfig ∧
    run = start leftConfig rightConfig) step

structure Invariant (run : Interop) : Prop where
  accepted : ∀ host, Accepted (run.config host)
  proposed : ∀ entry ∈ run.hellos, ∀ chunk window, entry.2 = .blob chunk window →
    chunk ≤ maxBlobChunkSize
  chunkSize : ∀ settings ∈ run.agreed, settings.chunkSize ≤ maxBlobChunkSize

/-- A dialler never takes a chunk size above its proposal. -/
theorem chunkSize_le_of_validated {chunk window : Nat} {hello : HelloPayload}
    {settings : BlobCallisSettings}
    (validated : validateBlobHelloResponse chunk window hello = .ok settings) :
    settings.chunkSize ≤ chunk := by
  unfold validateBlobHelloResponse at validated
  split at validated
  · cases validated
  · split at validated
    · cases validated
    · next within =>
        cases validated
        exact Nat.le_of_not_lt fun above => within (.inl above)

theorem chunkSize_le_of_concluded {run : Interop} {dialler : Host} {chunk window : Nat}
    {hello : HelloPayload} {settings : BlobCallisSettings}
    (concluded : run.conclude dialler chunk window hello = .ok settings) :
    settings.chunkSize ≤ chunk := by
  unfold conclude at concluded
  split at concluded
  · cases read : HelloPayload.fromBytes hello.toBytes with
    | error error =>
      rw [read] at concluded
      cases concluded
    | ok received =>
      rw [read] at concluded
      exact chunkSize_le_of_validated concluded
  · cases concluded

theorem Invariant.accept {run next : Interop} (inv : run.Invariant) {dialler : Host}
    {chunk window : Nat} (stepped : run.accept dialler chunk window = some next) :
    next.Invariant := by
  unfold Interop.accept at stepped
  obtain ⟨listed, stepped⟩ := Option.ite_none_right_eq_some.mp stepped
  have rest : ∀ entry ∈ run.hellos.erase (dialler, .blob chunk window), ∀ chunk window,
      entry.2 = .blob chunk window → chunk ≤ maxBlobChunkSize :=
    fun entry kept => inv.proposed entry (mem_of_mem_erase kept)
  split at stepped
  · cases stepped
    exact ⟨inv.accepted, rest, inv.chunkSize⟩
  · next settings settled =>
      cases stepped
      refine ⟨inv.accepted, rest, fun other membership => ?_⟩
      rcases mem_cons.mp membership with rfl | old
      · cases answered : run.answer dialler (.blob chunk window) with
        | error error =>
          rw [answered] at settled
          cases settled
        | ok negotiated =>
          rw [answered] at settled
          exact (chunkSize_le_of_concluded settled).trans
            (inv.proposed _ listed chunk window rfl)
      · exact inv.chunkSize other old

theorem Invariant.step {run next : Interop} {label : InteropLabel} (inv : run.Invariant)
    (stepped : run.step label = some next) : next.Invariant := by
  cases label with
  | update host config totalMemoryBytes =>
    simp only [Interop.step] at stepped
    split at stepped
    · cases stepped
      exact inv
    · next normal normalized =>
        cases stepped
        refine ⟨fun other => ?_, inv.proposed, inv.chunkSize⟩
        change Accepted (Function.update run.config host normal other)
        rw [Function.update_apply]
        split
        · exact accepted_of_normalize normalized
        · exact inv.accepted other
  | refreshLimit host =>
    cases stepped
    exact ⟨inv.accepted, inv.proposed, inv.chunkSize⟩
  | dial host =>
    cases stepped
    refine ⟨inv.accepted, fun entry membership chunk window shape => ?_, inv.chunkSize⟩
    rcases mem_cons.mp membership with rfl | old
    · cases shape
      exact (inv.accepted host).chunkSize.2
    · exact inv.proposed entry old chunk window shape
  | accept dialler chunk window => exact inv.accept stepped

theorem reachable_invariant {run : Interop} (reached : system.Reachable run) : run.Invariant := by
  refine reached.invariant ?_ (fun _ _ _ inv stepped => inv.step stepped)
  rintro _ ⟨left, right, _, _, _, _, leftOk, rightOk, rfl⟩
  refine ⟨fun host => ?_, by simp [start], by simp [start]⟩
  cases host with
  | left => exact accepted_of_normalize leftOk
  | right => exact accepted_of_normalize rightOk

inductive ControlFrame where
  | hello (hello : HelloPayload)
  | helloResponse (hello : HelloPayload)
  | error (errorId : UInt32) (message : Bytes)
  | blobTransferComplete (complete : BlobTransferCompletePayload)
  | blobTransferChunk (chunk : BlobTransferChunkPayload)

namespace ControlFrame

def payload : ControlFrame → Bytes
  | hello sent => sent.toBytes
  | helloResponse sent => sent.toBytes
  | error errorId message => (ErrorPayload.new errorId message).toBytes
  | blobTransferComplete complete => complete.toBytes
  | blobTransferChunk chunk => chunk.toBytes

def msgType : ControlFrame → MessageType
  | hello _ => msgHello
  | helloResponse _ => msgHelloResponse
  | error .. => msgError
  | blobTransferComplete _ => msgBlobTransferComplete
  | blobTransferChunk _ => msgBlobTransferChunk

end ControlFrame

/-- The frames a host may send: a hello from its configuration, an answer with agreed settings,
any error and completion, and chunks up to the agreed size. -/
def Emits (run : Interop) (host : Host) : ControlFrame → Prop
  | .hello hello => hello = blobHello (run.config host) ∨ (host, hello) ∈ run.hellos
  | .helloResponse hello => ∃ settings ∈ run.agreed, hello = blobHelloResponse settings
  | .error .. => True
  | .blobTransferComplete _ => True
  | .blobTransferChunk chunk => ∃ settings ∈ run.agreed, chunk.chunk.length ≤ settings.chunkSize

def Understood (run : Interop) (host : Host) : Prop :=
  ∀ frame, run.Emits host frame → ∀ flags peerMsgId,
    passes (run.limit host.other) frame.msgType flags peerMsgId frame.payload

/-- The limit leaves room for an error text of full length and for a chunk of full size. -/
def Roomy (run : Interop) (host : Host) : Prop :=
  4 + errorMessageMaxLen ≤ run.limit host.other ∧
    ∀ settings ∈ run.agreed,
      BlobTransferChunkPayload.headerLen + settings.chunkSize ≤ run.limit host.other

theorem payload_length_le {run : Interop} (inv : run.Invariant) {host : Host}
    (roomy : run.Roomy host) {frame : ControlFrame} (emitted : run.Emits host frame) :
    frame.payload.length < u32Limit ∧ frame.payload.length ≤ run.limit host.other := by
  have room := roomy.1
  cases frame with
  | hello hello | helloResponse hello =>
    have short : hello.toBytes.length ≤ HelloPayload.blobLen := by
      cases hello <;> simp [HelloPayload.primaryLen]
    simp only [ControlFrame.payload, HelloPayload.blobLen, errorMessageMaxLen, u32Limit] at *
    omega
  | error errorId message =>
    have short := ErrorPayload.message_new_length_le errorId message
    simp only [ControlFrame.payload, ErrorPayload.length_toBytes, u32Limit,
      errorMessageMaxLen] at *
    omega
  | blobTransferComplete complete =>
    simp only [ControlFrame.payload, BlobTransferCompletePayload.length_toBytes,
      BlobTransferCompletePayload.len, u32Limit, errorMessageMaxLen] at *
    omega
  | blobTransferChunk chunk =>
    obtain ⟨settings, listed, short⟩ := emitted
    have bound := inv.chunkSize settings listed
    have wide := roomy.2 settings listed
    simp only [ControlFrame.payload, BlobTransferChunkPayload.length_toBytes, u32Limit,
      BlobTransferChunkPayload.headerLen, maxBlobChunkSize] at *
    omega

/-- In every state that updates, dials and answers of two hosts with validated configurations can
reach, the frame reader of a host takes every control frame of the other exactly when its limit
has room for the longest error and for a chunk of every agreed size. -/
theorem understood_iff_roomy {run : Interop} (reached : system.Reachable run) (host : Host) :
    run.Understood host ↔ run.Roomy host := by
  have inv := reachable_invariant reached
  constructor
  · intro understood
    refine ⟨?_, fun settings listed => ?_⟩
    · -- an error text of ASCII characters that is not cut
      have passed := understood (.error 0 (replicate errorMessageMaxLen 0x41)) trivial 0 0
      have within := ((passes_iff _ _ _ _ _).mp passed).2
      simpa [ControlFrame.payload, ErrorPayload.new] using within
    · have passed := understood
        (.blobTransferChunk ⟨0, 0, 0, replicate settings.chunkSize 0⟩)
        ⟨settings, listed, by simp⟩ 0 0
      have within := ((passes_iff _ _ _ _ _).mp passed).2
      simpa [ControlFrame.payload] using within
  · intro roomy frame emitted flags peerMsgId
    exact (passes_iff _ _ _ _ _).mpr (payload_length_le inv roomy emitted)

/-- Two hosts with the default configuration and an established blob callis. -/
theorem understood_iff_roomy_default :
    ∃ run, system.Reachable run ∧ run.agreed = [⟨1200, 1024⟩] ∧ run.Understood .left := by
  have start : system.Reachable (start {} {}) :=
    .start ⟨{}, {}, none, none, {}, {}, rfl, rfl, rfl⟩
  have dialled := start.take (.dial .left) rfl
  have accepted := dialled.take (.accept .left 1200 1024) rfl
  refine ⟨_, accepted, rfl, (understood_iff_roomy accepted .left).mpr ⟨by decide, ?_⟩⟩
  intro settings listed
  rw [mem_singleton.mp listed]
  decide

/-- Both hosts accept chunks of 2000 bytes and payloads of 1500: the configurations are valid,
the callis is established, and a full chunk is refused. -/
theorem validated_limit_rejects_chunk :
    ∃ run, system.Reachable run ∧ ∃ chunk, run.Emits .left (.blobTransferChunk chunk) ∧
      ∀ flags peerMsgId, ¬ passes (run.limit .right) msgBlobTransferChunk flags peerMsgId
        chunk.toBytes := by
  have start : system.Reachable (start
      { blobWindow := ⟨2000, 16⟩, maxPayloadLen := 1500 }
      { blobWindow := ⟨2000, 16⟩, maxPayloadLen := 1500 }) :=
    .start ⟨{ blobWindow := ⟨2000, 16⟩, maxPayloadLen := 1500 },
      { blobWindow := ⟨2000, 16⟩, maxPayloadLen := 1500 }, none, none, _, _, rfl, rfl, rfl⟩
  have dialled := start.take (.dial .left) rfl
  have accepted := dialled.take (.accept .left 2000 16) rfl
  obtain ⟨data, full⟩ : ∃ data : Bytes, data.length = 2000 :=
    ⟨replicate 2000 0, length_replicate⟩
  refine ⟨_, accepted, ⟨0, 0, 0, data⟩, ⟨⟨2000, 16⟩, ?_, Nat.le_of_eq full⟩, ?_⟩
  · exact mem_singleton.mpr rfl
  · intro flags peerMsgId passed
    have within := ((passes_iff _ _ _ _ _).mp passed).2
    rw [BlobTransferChunkPayload.length_toBytes, full] at within
    exact absurd within (by decide)

end Interop

end AureliaPeering.Config
