import AureliaPeering.Ids
import AureliaPeering.Lib.BigEndian

/-!
Frames on the wire: a header of fixed length and a payload whose length the header states.
-/

namespace AureliaPeering.Wire

def protocolVersion : UInt16 := 1

structure WireHeader where
  version : UInt16
  flags : UInt16
  msgType : UInt32
  peerMsgId : UInt32
  srcTaberna : UInt64
  dstTaberna : UInt64
  payloadLen : UInt32
deriving DecidableEq, Repr

namespace WireHeader

def len : Nat := 32

def encode (header : WireHeader) : Bytes :=
  BigEndian.bytes 2 header.version.toNat ++ BigEndian.bytes 2 header.flags.toNat ++
    BigEndian.bytes 4 header.msgType.toNat ++ BigEndian.bytes 4 header.peerMsgId.toNat ++
    BigEndian.bytes 8 header.srcTaberna.toNat ++ BigEndian.bytes 8 header.dstTaberna.toNat ++
    BigEndian.bytes 4 header.payloadLen.toNat

@[simp]
theorem length_encode (header : WireHeader) : header.encode.length = len := by
  simp [encode, len]

theorem encode_of_version {header : WireHeader} (current : header.version = protocolVersion) :
    ∃ rest, header.encode = 0 :: 1 :: rest := by
  refine ⟨header.encode.drop 2, ?_⟩
  rw [encode, current]
  rfl

end WireHeader

def protocolViolation (message : String) : AureliaError := ⟨.protocolViolation, some message⟩

def wirePayloadLen (payloadLen : Nat) : Except AureliaError UInt32 :=
  if payloadLen < u32Limit then .ok (UInt32.ofNat payloadLen)
  else .error (protocolViolation "payload length exceeds wire header capacity")

variable {payload : Bytes} {header : WireHeader}

theorem wirePayloadLen_toNat {payloadLen : Nat} {stated : UInt32}
    (fits : wirePayloadLen payloadLen = .ok stated) : stated.toNat = payloadLen := by
  unfold wirePayloadLen at fits
  split at fits
  · rename_i small
    obtain rfl := Except.ok.inj fits
    exact Nat.mod_eq_of_lt small
  · cases fits

def controlHeader (msgType : MessageType) (flags : UInt16) (peerMsgId : PeerMessageId)
    (payloadLen : Nat) : Except AureliaError WireHeader :=
  (wirePayloadLen payloadLen).map fun stated =>
    ⟨protocolVersion, flags, UInt32.ofNat msgType, UInt32.ofNat peerMsgId, 0, 0, stated⟩

def outboundHeader : OutboundFrame → Except AureliaError (WireHeader × Bytes)
  | .ack peerMsgId =>
    .ok (⟨protocolVersion, 0, UInt32.ofNat msgAck, UInt32.ofNat peerMsgId, 0, 0, 0⟩, [])
  | .message message =>
    (wirePayloadLen message.payload.length).map fun stated =>
      (⟨protocolVersion, UInt16.ofNat message.flags, UInt32.ofNat message.msgType,
        UInt32.ofNat message.peerMsgId, UInt64.ofNat message.srcTaberna,
        UInt64.ofNat message.dstTaberna, stated⟩, message.payload)
  | .control msgType peerMsgId payload =>
    (controlHeader msgType 0 peerMsgId payload.length).map fun header => (header, payload)

def frameLen : OutboundFrame → Nat
  | .ack _ => WireHeader.len
  | .message message => WireHeader.len + message.payload.length
  | .control _ _ payload => WireHeader.len + payload.length

/-- The bytes of one frame of this protocol version. -/
def IsFrame (bytes : Bytes) : Prop :=
  ∃ (header : WireHeader) (payload : Bytes), header.version = protocolVersion ∧
    header.payloadLen.toNat = payload.length ∧ bytes = header.encode ++ payload

theorem IsFrame.starts {bytes : Bytes} (frame : IsFrame bytes) :
    ∃ rest, bytes = 0 :: 1 :: rest := by
  obtain ⟨_, payload, current, _, rfl⟩ := frame
  obtain ⟨rest, same⟩ := WireHeader.encode_of_version current
  exact ⟨rest ++ payload, by rw [same]; rfl⟩

theorem isFrame_control {msgType : MessageType} {flags : UInt16} {peerMsgId : PeerMessageId}
    (built : controlHeader msgType flags peerMsgId payload.length = .ok header) :
    IsFrame (header.encode ++ payload) := by
  unfold controlHeader at built
  cases stated : wirePayloadLen payload.length with
  | error => simp [stated, Except.map] at built
  | ok length =>
    simp only [stated, Except.map, Except.ok.injEq] at built
    subst built
    exact ⟨_, payload, rfl, wirePayloadLen_toNat stated, rfl⟩

theorem isFrame_outbound {frame : OutboundFrame}
    (built : outboundHeader frame = .ok (header, payload)) :
    IsFrame (header.encode ++ payload) ∧ (header.encode ++ payload).length = frameLen frame := by
  cases frame with
  | ack peerMsgId =>
    simp only [outboundHeader, Except.ok.injEq, Prod.mk.injEq] at built
    obtain ⟨rfl, rfl⟩ := built
    exact ⟨⟨_, [], rfl, rfl, rfl⟩, by simp [frameLen]⟩
  | message message =>
    cases stated : wirePayloadLen message.payload.length with
    | error => simp [outboundHeader, stated, Except.map] at built
    | ok length =>
      simp only [outboundHeader, stated, Except.map, Except.ok.injEq, Prod.mk.injEq] at built
      obtain ⟨rfl, rfl⟩ := built
      exact ⟨⟨_, message.payload, rfl, wirePayloadLen_toNat stated, rfl⟩, by simp [frameLen]⟩
  | control msgType peerMsgId content =>
    cases control : controlHeader msgType 0 peerMsgId content.length with
    | error => simp [outboundHeader, control, Except.map] at built
    | ok header =>
      simp only [outboundHeader, control, Except.map, Except.ok.injEq, Prod.mk.injEq] at built
      obtain ⟨rfl, rfl⟩ := built
      exact ⟨isFrame_control control, by simp [frameLen]⟩

end AureliaPeering.Wire
