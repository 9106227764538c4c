import AureliaPeering.Wire.Frame

/-!
The payloads of the control frames: what a sender builds and the length it takes on the wire.

A text is given by its UTF-8 bytes.
-/

namespace AureliaPeering.Wire

def decodeFailure (message : String) : AureliaError := .withMessage .decodeFailure message

inductive HelloPayload where
  | primary
  | blob (chunkSize ackWindowChunks : Nat)
deriving DecidableEq, Repr

namespace HelloPayload

def primaryLen : Nat := 0
def blobLen : Nat := 8

def toBytes : HelloPayload → Bytes
  | primary => []
  | blob chunkSize ackWindowChunks =>
    BigEndian.bytes 4 chunkSize ++ BigEndian.bytes 4 ackWindowChunks

def fromBytes (bytes : Bytes) : Except AureliaError HelloPayload :=
  if bytes.length = primaryLen then .ok .primary
  else if bytes.length = blobLen then
    .ok (.blob (BigEndian.value (bytes.take 4)) (BigEndian.value (bytes.drop 4)))
  else .error (decodeFailure "invalid hello payload length")

@[simp]
theorem length_toBytes (hello : HelloPayload) :
    hello.toBytes.length = match hello with | primary => primaryLen | blob .. => blobLen := by
  cases hello <;> simp [toBytes, primaryLen, blobLen]

end HelloPayload

def errorMessageMaxLen : Nat := 1024

/-- Whether a byte may start a character: it is not a continuation byte. -/
def startsChar (byte : UInt8) : Bool := byte &&& 0xC0 != 0x80

def isCharBoundary (text : Bytes) (index : Nat) : Bool :=
  match text[index]? with
  | some byte => startsChar byte
  | none => index == text.length

/-- The loop that moves the cut back to a character boundary. -/
def charBoundaryBelow (text : Bytes) : Nat → Nat
  | 0 => 0
  | index + 1 => if isCharBoundary text (index + 1) then index + 1 else charBoundaryBelow text index

theorem charBoundaryBelow_le (text : Bytes) (index : Nat) :
    charBoundaryBelow text index ≤ index := by
  induction index with
  | zero => exact Nat.le_refl _
  | succ index ih =>
    unfold charBoundaryBelow
    split
    · exact Nat.le_refl _
    · exact Nat.le_succ_of_le ih

structure ErrorPayload where
  errorId : UInt32
  message : Bytes
deriving DecidableEq, Repr

namespace ErrorPayload

def new (errorId : UInt32) (message : Bytes) : ErrorPayload :=
  if errorMessageMaxLen < message.length then
    ⟨errorId, message.take (charBoundaryBelow message errorMessageMaxLen)⟩
  else ⟨errorId, message⟩

def toBytes (payload : ErrorPayload) : Bytes :=
  BigEndian.bytes 4 payload.errorId.toNat ++ payload.message

theorem message_new_length_le (errorId : UInt32) (message : Bytes) :
    (new errorId message).message.length ≤ errorMessageMaxLen := by
  unfold new
  split
  · rw [List.length_take]
    exact Nat.le_trans (Nat.min_le_left _ _) (charBoundaryBelow_le message errorMessageMaxLen)
  · next short => exact Nat.not_lt.mp short

@[simp]
theorem length_toBytes (payload : ErrorPayload) :
    payload.toBytes.length = 4 + payload.message.length := by
  simp [toBytes]

end ErrorPayload

structure BlobTransferCompletePayload where
  requestMsgId : UInt32
deriving DecidableEq, Repr

namespace BlobTransferCompletePayload

def len : Nat := 4

def toBytes (payload : BlobTransferCompletePayload) : Bytes :=
  BigEndian.bytes 4 payload.requestMsgId.toNat

@[simp]
theorem length_toBytes (payload : BlobTransferCompletePayload) :
    payload.toBytes.length = len := by
  simp [toBytes, len]

end BlobTransferCompletePayload

structure BlobTransferChunkPayload where
  requestMsgId : UInt32
  chunkId : UInt64
  flags : UInt16
  chunk : Bytes
deriving DecidableEq, Repr

namespace BlobTransferChunkPayload

def headerLen : Nat := 4 + 8 + 2 + 4

/-- The inner header and the chunk, as `send_blob_chunk_frame` writes them. -/
def toBytes (payload : BlobTransferChunkPayload) : Bytes :=
  BigEndian.bytes 4 payload.requestMsgId.toNat ++ BigEndian.bytes 8 payload.chunkId.toNat ++
    BigEndian.bytes 2 payload.flags.toNat ++ BigEndian.bytes 4 payload.chunk.length ++
    payload.chunk

@[simp]
theorem length_toBytes (payload : BlobTransferChunkPayload) :
    payload.toBytes.length = headerLen + payload.chunk.length := by
  simp only [toBytes, headerLen, List.length_append, BigEndian.length_bytes]

end BlobTransferChunkPayload

/-- The check that `read_frame` and `read_next` make on a decoded header: the payload length to
read, unless it is above the limit. -/
def payloadLenWithin (maxPayloadLen : Nat) (header : WireHeader) : Except AureliaError Nat :=
  if maxPayloadLen < header.payloadLen.toNat then
    .error (protocolViolation "payload length exceeds max")
  else .ok header.payloadLen.toNat

/-- A payload is sent behind a control header and read by a peer with the given limit. -/
def passes (maxPayloadLen : Nat) (msgType : MessageType) (flags : UInt16)
    (peerMsgId : PeerMessageId) (payload : Bytes) : Prop :=
  ∃ header, controlHeader msgType flags peerMsgId payload.length = .ok header ∧
    payloadLenWithin maxPayloadLen header = .ok payload.length

theorem passes_iff (maxPayloadLen : Nat) (msgType : MessageType) (flags : UInt16)
    (peerMsgId : PeerMessageId) (payload : Bytes) :
    passes maxPayloadLen msgType flags peerMsgId payload ↔
      payload.length < u32Limit ∧ payload.length ≤ maxPayloadLen := by
  unfold passes controlHeader payloadLenWithin
  constructor
  · rintro ⟨_, built, within⟩
    cases stated : wirePayloadLen payload.length with
    | error error => simp [stated, Except.map] at built
    | ok length =>
      have length_eq := wirePayloadLen_toNat stated
      simp only [stated, Except.map, Except.ok.injEq] at built
      subst built
      split at within
      · cases within
      · next small =>
          rw [length_eq] at small
          refine ⟨?_, Nat.not_lt.mp small⟩
          rw [← length_eq]
          exact length.toNat_lt
  · rintro ⟨fits, within⟩
    have stated : wirePayloadLen payload.length = .ok (UInt32.ofNat payload.length) := if_pos fits
    have length_eq := wirePayloadLen_toNat stated
    refine ⟨_, by rw [stated]; rfl, ?_⟩
    rw [if_neg (by simp only [length_eq]; omega), length_eq]

end AureliaPeering.Wire
