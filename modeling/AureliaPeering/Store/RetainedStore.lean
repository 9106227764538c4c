import AureliaPeering.Lib.HashMap
import AureliaPeering.Lib.Machine
import AureliaPeering.Lib.MinHeap
import AureliaPeering.Store.Lane

/-!
The retained store: four lanes, two indexes by message id, and the heap of deadlines.

An operation that may panic in the source returns in `Except Panic`.  Where the source walks a
hash map, the order of the walk is an argument of the operation, and `Op.Ordered` says which
orders are possible.  `complete_write`, `mark_*` and the expiry loop work on lazy keys: a key
whose sequence number no longer matches its slot is skipped.
-/

namespace AureliaPeering.Store

open Collections

structure DeadlineKey where
  deadline : Instant
  slot : SlotId
  seq : Nat
deriving DecidableEq, Repr

def laneRank : RetainedLane → Nat
  | .a1Ack => 0
  | .a1Error => 1
  | .a2 => 2
  | .a3 => 3

/-- The order of the deadline heap: the deadline, then the lane, the index and the sequence. -/
def DeadlineKey.rank (key : DeadlineKey) : Nat ×ₗ Nat ×ₗ Nat ×ₗ Nat :=
  toLex (key.deadline, toLex (laneRank key.slot.lane, toLex (key.slot.index, key.seq)))

structure RetainedCapacities where
  a1Ack : Nat
  a1Error : Nat
  a2 : Nat
  a3 : Nat
deriving DecidableEq, Repr

def a1AckCapacityMultiplier : Nat := 16
def a1ErrorCapacityMultiplier : Nat := 2
def a2Capacity : Nat := 128

def RetainedCapacities.fromSendQueueSize (sendQueueSize : Nat) : RetainedCapacities :=
  let size := max sendQueueSize 1
  { a1Ack := saturatingMul size a1AckCapacityMultiplier
    a1Error := saturatingMul size a1ErrorCapacityMultiplier
    a2 := a2Capacity
    a3 := size }

inductive RetainedInsertError where
  | full (tracked : TrackedOutbound)
  | duplicate (tracked : TrackedOutbound)
  | shutdown (tracked : TrackedOutbound)
  | expired (tracked : TrackedOutbound)
  | a1Tracked (tracked : TrackedOutbound)
deriving DecidableEq, Repr

def RetainedInsertError.tracked : RetainedInsertError → TrackedOutbound
  | full outbound | duplicate outbound | shutdown outbound | expired outbound
  | a1Tracked outbound => outbound

inductive ResponseKind where
  | ack
  | error
deriving DecidableEq, Repr

inductive ResponseInsertOutcome where
  | inserted
  | duplicate (attempted : ResponseKind) (peerMsgId : PeerMessageId)
  | full (lane : RetainedLane) (peerMsgId : PeerMessageId)
  | shutdown (peerMsgId : PeerMessageId)
  | expired (peerMsgId : PeerMessageId)
deriving DecidableEq, Repr

inductive RetainedWriteItem where
  | ack (peerMsgId : PeerMessageId)
  | error (peerMsgId : PeerMessageId) (frame : OutboundFrame)
  | message (peerMsgId : PeerMessageId) (message : PeerMessage)
deriving DecidableEq, Repr

structure RetainedClaim where
  slot : SlotId
  identity : ItemIdentity
  callisId : CallisId
  deadline : Instant
  item : RetainedWriteItem
deriving DecidableEq, Repr

def writeItem : RetainedItem → RetainedWriteItem
  | .ack peerMsgId => .ack peerMsgId
  | .error peerMsgId frame => .error peerMsgId frame
  | .tracked outbound => .message outbound.peerMsgId outbound.message

structure CompletionEffect where
  peerMsgId : PeerMessageId
  ackTx : AckSender
  result : Except AureliaError Unit
deriving DecidableEq

def trackedLane (msgType : MessageType) : Except Panic RetainedLane :=
  match classifyPriority msgType with
  | .a1 => .error (.unreachable "completion-bearing A1 messages are not retained")
  | .a2 => .ok .a2
  | .a3 => .ok .a3

structure RetainedStore where
  a1Ack : LaneState
  a1Error : LaneState
  a2 : LaneState
  a3 : LaneState
  tracked : HashMap PeerMessageId SlotId
  responses : HashMap PeerMessageId SlotId
  deadlines : MinHeap DeadlineKey.rank
  nextSeq : Nat
  shutdown : Bool

namespace RetainedStore

def new (capacities : RetainedCapacities) (now : Instant) : RetainedStore where
  a1Ack := LaneState.new .a1Ack capacities.a1Ack now
  a1Error := LaneState.new .a1Error capacities.a1Error now
  a2 := LaneState.new .a2 capacities.a2 now
  a3 := LaneState.new .a3 capacities.a3 now
  tracked := ∅
  responses := ∅
  deadlines := MinHeap.empty
  nextSeq := 1
  shutdown := false

def lane (store : RetainedStore) : RetainedLane → LaneState
  | .a1Ack => store.a1Ack
  | .a1Error => store.a1Error
  | .a2 => store.a2
  | .a3 => store.a3

/-- Write back one lane: what `lane_mut` gives access to. -/
def setLane (store : RetainedStore) (lane : RetainedLane) (state : LaneState) : RetainedStore :=
  match lane with
  | .a1Ack => { store with a1Ack := state }
  | .a1Error => { store with a1Error := state }
  | .a2 => { store with a2 := state }
  | .a3 => { store with a3 := state }

def slot (store : RetainedStore) (id : SlotId) : Option RetainedSlot :=
  (store.lane id.lane).slots[id.index]?

def setCapacities (store : RetainedStore) (capacities : RetainedCapacities) (now : Instant) :
    RetainedStore :=
  { store with
    a1Ack := store.a1Ack.setTargetCapacity capacities.a1Ack now
    a1Error := store.a1Error.setTargetCapacity capacities.a1Error now
    a2 := store.a2.setTargetCapacity capacities.a2 now
    a3 := store.a3.setTargetCapacity capacities.a3 now }

def setShutdown (store : RetainedStore) : RetainedStore := { store with shutdown := true }

def allocate (store : RetainedStore) (lane : RetainedLane) (item : RetainedItem)
    (deadline now : Instant) : Except Panic (Option (SlotId × ItemIdentity) × RetainedStore) :=
  let seq := store.nextSeq
  let store := { store with nextSeq := LaneState.nextSeq store.nextSeq }
  match (store.lane lane).allocate item deadline seq now with
  | .error panic => .error panic
  | .ok (none, state) => .ok (none, store.setLane lane state)
  | .ok (some (slot, identity), state) =>
    .ok (some (slot, identity),
      { store.setLane lane state with
        deadlines := store.deadlines.push ⟨deadline, slot, seq⟩ })

def insertResponse (store : RetainedStore) (attempted : ResponseKind) (lane : RetainedLane)
    (peerMsgId : PeerMessageId) (deadline : Instant) (item : RetainedItem) (now : Instant) :
    Except Panic (ResponseInsertOutcome × RetainedStore) :=
  if store.shutdown then .ok (.shutdown peerMsgId, store)
  else if deadline ≤ now then .ok (.expired peerMsgId, store)
  else if (store.responses.lookup peerMsgId).isSome then
    .ok (.duplicate attempted peerMsgId, store)
  else
    match store.allocate lane item deadline now with
    | .error panic => .error panic
    | .ok (some (slot, _), store) =>
      .ok (.inserted, { store with responses := AList.insert peerMsgId slot store.responses })
    | .ok (none, store) => .ok (.full lane peerMsgId, store)

def insertAck (store : RetainedStore) (peerMsgId : PeerMessageId) (deadline now : Instant) :
    Except Panic (ResponseInsertOutcome × RetainedStore) :=
  store.insertResponse .ack .a1Ack peerMsgId deadline (.ack peerMsgId) now

def insertError (store : RetainedStore) (peerMsgId : PeerMessageId) (frame : OutboundFrame)
    (deadline now : Instant) : Except Panic (ResponseInsertOutcome × RetainedStore) :=
  store.insertResponse .error .a1Error peerMsgId deadline (.error peerMsgId frame) now

def insertTracked (store : RetainedStore) (tracked : TrackedOutbound) (deadline now : Instant) :
    Except Panic (Except RetainedInsertError Unit × RetainedStore) :=
  if store.shutdown then .ok (.error (.shutdown tracked), store)
  else if deadline ≤ now then .ok (.error (.expired tracked), store)
  else if (store.tracked.lookup tracked.peerMsgId).isSome then
    .ok (.error (.duplicate tracked), store)
  else if classifyPriority tracked.msgType = .a1 then .ok (.error (.a1Tracked tracked), store)
  else
    match trackedLane tracked.msgType with
    | .error panic => .error panic
    | .ok lane =>
      if (store.lane lane).available then
        match store.allocate lane (.tracked tracked) deadline now with
        | .error panic => .error panic
        | .ok (some (slot, _), store) =>
          .ok (.ok (), { store with
            tracked := AList.insert tracked.peerMsgId slot store.tracked })
        | .ok (none, _) =>
          .error (.unreachable "capacity checked before tracked allocation")
      else .ok (.error (.full tracked), store)

end RetainedStore

end AureliaPeering.Store
