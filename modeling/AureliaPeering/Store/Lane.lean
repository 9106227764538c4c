import AureliaPeering.Ids

/-!
One lane of the retained store: a slab of slots with a free list and two queues of lazy keys.

The free list is a stack and is listed top first.  A slot's own lane tag is never read by the
store and is left out.  The clock readings of the source are arguments.
-/

namespace AureliaPeering.Store

inductive RetainedLane where
  | a1Ack
  | a1Error
  | a2
  | a3
deriving DecidableEq, Repr

inductive SlotState where
  | empty
  | ready
  | replayReady (lastSentCallisId : CallisId)
  | writing (callisId : CallisId)
  | inflight (lastSentCallisId : CallisId)
deriving DecidableEq, Repr

/-- The sending half of a oneshot channel, named by the channel it belongs to. -/
abbrev AckSender := Nat

structure TrackedOutbound where
  message : PeerMessage
  ackTx : AckSender
deriving DecidableEq, Repr

def TrackedOutbound.peerMsgId (tracked : TrackedOutbound) : PeerMessageId :=
  tracked.message.peerMsgId

def TrackedOutbound.msgType (tracked : TrackedOutbound) : MessageType :=
  tracked.message.msgType

inductive RetainedItem where
  | ack (peerMsgId : PeerMessageId)
  | error (peerMsgId : PeerMessageId) (frame : OutboundFrame)
  | tracked (outbound : TrackedOutbound)
deriving DecidableEq, Repr

inductive ItemKind where
  | ack
  | error
  | tracked
deriving DecidableEq, Repr

def RetainedItem.peerMsgId : RetainedItem → PeerMessageId
  | .ack peerMsgId | .error peerMsgId _ => peerMsgId
  | .tracked outbound => outbound.peerMsgId

def RetainedItem.kind : RetainedItem → ItemKind
  | .ack _ => .ack
  | .error _ _ => .error
  | .tracked _ => .tracked

structure ItemIdentity where
  peerMsgId : PeerMessageId
  seq : Nat
  kind : ItemKind
deriving DecidableEq, Repr

structure SlotId where
  lane : RetainedLane
  index : Nat
deriving DecidableEq, Repr

structure QueueKey where
  index : Nat
  seq : Nat
deriving DecidableEq, Repr

structure RetainedSlot where
  item : Option RetainedItem
  originalDeadline : Instant
  seq : Nat
  state : SlotState
deriving DecidableEq, Repr

def RetainedSlot.empty (now : Instant) : RetainedSlot := ⟨none, now, 0, .empty⟩

def RetainedSlot.identity (slot : RetainedSlot) : Option ItemIdentity :=
  slot.item.map fun item => ⟨item.peerMsgId, slot.seq, item.kind⟩

structure LaneState where
  lane : RetainedLane
  slots : List RetainedSlot
  free : List Nat
  ready : List QueueKey
  replay : List QueueKey
  targetCapacity : Nat
  liveCount : Nat
deriving DecidableEq, Repr

namespace LaneState

def new (lane : RetainedLane) (targetCapacity : Nat) (now : Instant) : LaneState where
  lane := lane
  slots := List.replicate (max targetCapacity 1) (RetainedSlot.empty now)
  free := List.range (max targetCapacity 1)
  ready := []
  replay := []
  targetCapacity := max targetCapacity 1
  liveCount := 0

/-- Push empty slots until there are `count` more, each with its index on the free list. -/
def grow (now : Instant) : Nat → LaneState → LaneState
  | 0, state => state
  | count + 1, state =>
    grow now count { state with
      slots := state.slots ++ [RetainedSlot.empty now]
      free := state.slots.length :: state.free }

def setTargetCapacity (state : LaneState) (targetCapacity : Nat) (now : Instant) : LaneState :=
  let target := max targetCapacity 1
  { grow now (target - state.slots.length) state with targetCapacity := target }

def available (state : LaneState) : Bool := decide (state.liveCount < state.targetCapacity)

/-- The index `allocate` uses: the top of the free list, or else a new slot below the target. -/
def takeIndex (state : LaneState) (now : Instant) : Option (Nat × LaneState) :=
  match state.free with
  | index :: free => some (index, { state with free := free })
  | [] =>
    if state.slots.length < state.targetCapacity then
      some (state.slots.length,
        { state with slots := state.slots ++ [RetainedSlot.empty now] })
    else none

def setSlot (state : LaneState) (index : Nat) (slot : RetainedSlot) : LaneState :=
  { state with slots := state.slots.set index slot }

def allocate (state : LaneState) (item : RetainedItem) (deadline : Instant) (seq : Nat)
    (now : Instant) : Except Panic (Option (SlotId × ItemIdentity) × LaneState) :=
  if state.available then
    match state.takeIndex now with
    | none => .ok (none, state)
    | some (index, state) =>
      match state.slots[index]? with
      | none => .error .indexOutOfBounds
      | some _ =>
        let slot : RetainedSlot := ⟨some item, deadline, seq, .ready⟩
        let state := { state.setSlot index slot with
          liveCount := state.liveCount + 1
          ready := state.ready ++ [⟨index, seq⟩] }
        match slot.identity with
        | none => .error (.expect "allocated slot has item")
        | some identity => .ok (some (⟨state.lane, index⟩, identity), state)
  else .ok (none, state)

/-- `seq.wrapping_add(1).max(1)` on a `u64`. -/
def nextSeq (seq : Nat) : Nat := max ((seq + 1) % u64Limit) 1

def removeSlot (state : LaneState) (index : Nat) : Option (RetainedItem × LaneState) :=
  match state.slots[index]? with
  | none => none
  | some slot =>
    match slot.item with
    | none => none
    | some item =>
      some (item, { state.setSlot index
          { slot with item := none, state := .empty, seq := nextSeq slot.seq } with
        liveCount := state.liveCount - 1
        free := index :: state.free })

end LaneState

end AureliaPeering.Store
