import Mathlib.Algebra.GroupWithZero.Nat
import Mathlib.Data.List.Basic

/-!
Identifiers, priority classes, errors and messages shared by every component.

Fixed-width identifiers are natural numbers.  An operation that can wrap or saturate does so
where it is defined.
-/

namespace AureliaPeering

abbrev TabernaId := Nat
abbrev MessageType := Nat
abbrev PeerMessageId := Nat
abbrev CallisId := Nat

/-- A point of the monotonic clock. -/
abbrev Instant := Nat

abbrev Bytes := List UInt8

/-- The exclusive upper bound of a `u64`. -/
def u64Limit : Nat := 2 ^ 64

/-- The exclusive upper bound of a `u32`. -/
def u32Limit : Nat := 2 ^ 32

/-- The largest `u64`, and the largest `usize`. -/
def u64Max : Nat := u64Limit - 1

def saturatingAdd (left right : Nat) : Nat := min (left + right) u64Max

def saturatingMul (left right : Nat) : Nat := min (left * right) u64Max

def a3MessageTypeBase : MessageType := 0x01000000
def a1MessageTypeMax : MessageType := 0x0000FFFF
def a2MessageTypeMax : MessageType := a3MessageTypeBase - 1

def msgHello : MessageType := 1
def msgHelloResponse : MessageType := 2
def msgKeepalive : MessageType := 3
def msgAck : MessageType := 4
def msgClose : MessageType := 5
def msgError : MessageType := 6
def msgBlobTransferChunk : MessageType := 8
def msgBlobTransferComplete : MessageType := 9

inductive PriorityTier where
  | a1
  | a2
  | a3
deriving DecidableEq, Repr

def classifyPriority (msgType : MessageType) : PriorityTier :=
  if msgType ≤ a1MessageTypeMax then .a1
  else if msgType ≤ a2MessageTypeMax then .a2
  else .a3

inductive ErrorId where
  | unknownTaberna
  | localQueueFull
  | peerUnavailable
  | remoteTabernaRejected
  | connectionLost
  | peerRestarted
  | protocolViolation
  | unsupportedVersion
  | encodeFailure
  | decodeFailure
  | tabernaBusy
  | sendTimeout
  | blobCallisWithoutPrimary
  | blobAckWindowExceeded
  | blobStreamNotFound
  | blobStreamOutOfOrder
  | blobStreamIdleTimeout
  | blobStreamMissingChunk
  | blobBufferFull
  | addressMismatch
  | tabernaAlreadyRegistered
  | invalidConfig
  | domusClosed
  | receiveTimeout
  | snapshotNotAvailable
  | tabernaShutdown
deriving DecidableEq, Repr

structure AureliaError where
  kind : ErrorId
  message : Option String
deriving DecidableEq, Repr

def AureliaError.new (kind : ErrorId) : AureliaError := ⟨kind, none⟩

def AureliaError.withMessage (kind : ErrorId) (message : String) : AureliaError :=
  ⟨kind, some message⟩

structure PeerMessage where
  peerMsgId : PeerMessageId
  srcTaberna : TabernaId
  dstTaberna : TabernaId
  msgType : MessageType
  flags : Nat
  payload : Bytes
deriving DecidableEq, Repr

inductive OutboundFrame where
  | ack (peerMsgId : PeerMessageId)
  | message (message : PeerMessage)
  | control (msgType : MessageType) (peerMsgId : PeerMessageId) (payload : Bytes)
deriving DecidableEq, Repr

/-- One of two endpoints that are connected with each other. -/
inductive Side where
  | left
  | right
deriving DecidableEq, Repr

def Side.other : Side → Side
  | .left => .right
  | .right => .left

@[simp]
theorem Side.other_other (side : Side) : side.other.other = side := by
  cases side <;> rfl

theorem Side.other_ne (side : Side) : side.other ≠ side := by
  cases side <;> decide

theorem Side.eq_or_eq_other (side actor : Side) : side = actor ∨ side = actor.other := by
  cases side <;> cases actor <;> simp [other]

/-- The ways in which the modelled code can panic: an index out of bounds, an `expect` on a
missing value, or an `unreachable!`. -/
inductive Panic where
  | indexOutOfBounds
  | expect (message : String)
  | unreachable (message : String)
deriving DecidableEq, Repr

theorem bind_eq_ok {α β : Type} {first : Except AureliaError α} {next : α → Except AureliaError β}
    {value : β} (ran : first >>= next = .ok value) :
    ∃ middle, first = .ok middle ∧ next middle = .ok value := by
  cases first with
  | error error => cases ran
  | ok middle => exact ⟨middle, rfl, ran⟩

theorem mapped_eq_ok {ε α β : Type} {attempt : Except ε α} {change : α → β} {result : β}
    (mapped : attempt.map change = .ok result) :
    ∃ value, attempt = .ok value ∧ change value = result := by
  cases attempt with
  | error => cases mapped
  | ok value => exact ⟨value, rfl, Except.ok.inj mapped⟩

end AureliaPeering
