import AureliaPeering.Store.RetainedStore

/-!
Claiming, write completion, removal, replay marking and expiry of the retained store, and the
store as a machine whose labels are its operations with their outputs.
-/

namespace AureliaPeering.Store

open Collections

def RetainedLane.isA1 : RetainedLane → Bool
  | .a1Ack | .a1Error => true
  | .a2 | .a3 => false

/-- The states in which a queue key is live: `replay` for the replay queue, else the ready one. -/
def SlotState.claimable : SlotState → Bool → Bool
  | .ready, replay => !replay
  | .replayReady _, replay => replay
  | _, _ => false

/-- The connection that last carried a slot, if it was ever claimed. -/
def SlotState.lastSent : SlotState → Option CallisId
  | .writing callisId => some callisId
  | .inflight lastSent | .replayReady lastSent => some lastSent
  | .ready | .empty => none

namespace LaneState

def queue (state : LaneState) (replay : Bool) : List QueueKey :=
  if replay then state.replay else state.ready

def setQueue (state : LaneState) (replay : Bool) (queue : List QueueKey) : LaneState :=
  if replay then { state with replay := queue } else { state with ready := queue }

/-- Pop keys until one is live: the remaining queue, and the key with its slot.  A key outside
the slab ends the scan, as the early return of the source does. -/
def scanQueue (slots : List RetainedSlot) (replay : Bool) :
    List QueueKey → List QueueKey × Option (QueueKey × RetainedSlot)
  | [] => ([], none)
  | key :: rest =>
    match slots[key.index]? with
    | none => (rest, none)
    | some slot =>
      if slot.seq = key.seq ∧ slot.state.claimable replay then (rest, some (key, slot))
      else scanQueue slots replay rest

/-- The state to which the loss of `callisId` moves a slot, if it moves it. -/
def sweptState (callisId : CallisId) (slot : RetainedSlot) : Option SlotState :=
  match slot.state, slot.item with
  | .writing writing, some (.ack _) => if writing = callisId then some .ready else none
  | .writing writing, some (.error _ _) => if writing = callisId then some .ready else none
  | .writing writing, some (.tracked _) =>
    if writing = callisId then some (.replayReady callisId) else none
  | .inflight lastSent, some (.tracked _) =>
    if lastSent = callisId then some (.replayReady callisId) else none
  | _, _ => none

/-- The keys, in index order, of the slots that a sweep moves to a state passing `test`. -/
def sweptKeys (callisId : CallisId) (test : SlotState → Bool) (slots : List RetainedSlot) :
    List QueueKey :=
  slots.zipIdx.filterMap fun entry =>
    match sweptState callisId entry.1 with
    | some state => if test state then some ⟨entry.2, entry.1.seq⟩ else none
    | none => none

def sweepSlot (callisId : CallisId) (slot : RetainedSlot) : RetainedSlot :=
  match sweptState callisId slot with
  | some state => { slot with state := state }
  | none => slot

/-- One lane of `mark_callis_replay_ready`. -/
def sweep (state : LaneState) (callisId : CallisId) : LaneState :=
  { state with
    slots := state.slots.map (sweepSlot callisId)
    ready := state.ready ++ sweptKeys callisId (fun target => target.claimable false) state.slots
    replay := state.replay ++
      sweptKeys callisId (fun target => target.claimable true) state.slots }

end LaneState

namespace RetainedStore

/-- Remove the item of a slot and its entry in the index of its kind. -/
def removeBySlot (store : RetainedStore) (slot : SlotId) : Option (RetainedItem × RetainedStore) :=
  match (store.lane slot.lane).removeSlot slot.index with
  | none => none
  | some (item, state) =>
    let store := store.setLane slot.lane state
    match item with
    | .ack peerMsgId | .error peerMsgId _ =>
      some (item, { store with responses := AList.erase peerMsgId store.responses })
    | .tracked outbound =>
      some (item, { store with tracked := AList.erase outbound.peerMsgId store.tracked })

def claimFromQueue (store : RetainedStore) (lane : RetainedLane) (replay : Bool)
    (callisId : CallisId) : Option RetainedClaim × RetainedStore :=
  let state := store.lane lane
  match LaneState.scanQueue state.slots replay (state.queue replay) with
  | (queue, none) => (none, store.setLane lane (state.setQueue replay queue))
  | (queue, some (key, slot)) =>
    let state := state.setQueue replay queue
    match slot.item with
    | none => (none, store.setLane lane state)
    | some item =>
      (some
        { slot := ⟨lane, key.index⟩
          identity := ⟨item.peerMsgId, slot.seq, item.kind⟩
          callisId := callisId
          deadline := slot.originalDeadline
          item := writeItem item },
        store.setLane lane (state.setSlot key.index { slot with state := .writing callisId }))

def claimLane (store : RetainedStore) (lane : RetainedLane) (callisId : CallisId) :
    Option RetainedClaim × RetainedStore :=
  if store.shutdown && !lane.isA1 then (none, store)
  else if lane.isA1 then store.claimFromQueue lane false callisId
  else
    match store.claimFromQueue lane true callisId with
    | (some claim, store) => (some claim, store)
    | (none, store) => store.claimFromQueue lane false callisId

/-- Try lanes in order until one yields a claim. -/
def claimLanes (callisId : CallisId) :
    List RetainedLane → RetainedStore → Option RetainedClaim × RetainedStore
  | [], store => (none, store)
  | lane :: rest, store =>
    match store.claimLane lane callisId with
    | (some claim, store) => (some claim, store)
    | (none, store) => claimLanes callisId rest store

def claimNext (store : RetainedStore) (callisId : CallisId) :
    Option RetainedClaim × RetainedStore :=
  claimLanes callisId [.a1Ack, .a1Error, .a2, .a3] store

def laneHasDispatchableWork (store : RetainedStore) (lane : RetainedLane) : Bool :=
  (store.lane lane).slots.any fun slot =>
    (slot.state.claimable false || slot.state.claimable true) && slot.item.isSome

def hasDispatchableWork (store : RetainedStore) : Bool :=
  store.laneHasDispatchableWork .a1Ack || store.laneHasDispatchableWork .a1Error ||
    (!store.shutdown &&
      (store.laneHasDispatchableWork .a2 || store.laneHasDispatchableWork .a3))

/-- Put a slot into a claimable state and queue its current key. -/
def requeue (store : RetainedStore) (id : SlotId) (slot : RetainedSlot) (replay : Bool)
    (target : SlotState) : RetainedStore :=
  let state := (store.lane id.lane).setSlot id.index { slot with state := target }
  store.setLane id.lane (state.setQueue replay (state.queue replay ++ [⟨id.index, slot.seq⟩]))

def completeWrite (store : RetainedStore) (claim : RetainedClaim)
    (result : Except AureliaError Unit) : List CompletionEffect × RetainedStore :=
  match store.slot claim.slot with
  | none => ([], store)
  | some slot =>
    if slot.state ≠ .writing claim.callisId ∨ slot.identity ≠ some claim.identity then ([], store)
    else
      match result, slot.item with
      | _, none => ([], store)
      | .error _, some (.tracked _) =>
        ([], store.requeue claim.slot slot true (.replayReady claim.callisId))
      | .error _, some _ => ([], store.requeue claim.slot slot false .ready)
      | .ok _, some (.tracked _) =>
        ([], store.setLane claim.slot.lane ((store.lane claim.slot.lane).setSlot
          claim.slot.index { slot with state := .inflight claim.callisId }))
      | .ok _, some _ =>
        match store.removeBySlot claim.slot with
        | none => ([], store)
        | some (_, store) => ([], store)

/-- `ack` and `fail_one`: remove the tracked message and complete its sender with `result`. -/
def completeOne (store : RetainedStore) (peerMsgId : PeerMessageId)
    (result : Except AureliaError Unit) : Option CompletionEffect × RetainedStore :=
  match store.tracked.lookup peerMsgId with
  | none => (none, store)
  | some slot =>
    match store.removeBySlot slot with
    | none => (none, store)
    | some (.tracked outbound, store) => (some ⟨peerMsgId, outbound.ackTx, result⟩, store)
    | some (_, store) => (none, store)

def ack (store : RetainedStore) (peerMsgId : PeerMessageId) :
    Option CompletionEffect × RetainedStore :=
  store.completeOne peerMsgId (.ok ())

def failOne (store : RetainedStore) (peerMsgId : PeerMessageId) (error : AureliaError) :
    Option CompletionEffect × RetainedStore :=
  store.completeOne peerMsgId (.error error)

/-- The completion a removed item owes: only a tracked item has a sender. -/
def itemEffects (result : Except AureliaError Unit) : RetainedItem → List CompletionEffect
  | .tracked outbound => [⟨outbound.peerMsgId, outbound.ackTx, result⟩]
  | _ => []

/-- Remove the given slots one after the other: the items that were there, in order. -/
def removeSlots : List SlotId → RetainedStore → List RetainedItem × RetainedStore
  | [], store => ([], store)
  | slot :: rest, store =>
    match store.removeBySlot slot with
    | none => removeSlots rest store
    | some (item, store) =>
      let (items, store) := removeSlots rest store
      (item :: items, store)

def failSlots (error : AureliaError) (slots : List SlotId) (store : RetainedStore) :
    List CompletionEffect × RetainedStore :=
  let (items, store) := removeSlots slots store
  (items.flatMap (itemEffects (.error error)), store)

def failAll (store : RetainedStore) (error : AureliaError) (order : List SlotId) :
    List CompletionEffect × RetainedStore :=
  failSlots error order store

def failNonA1 (store : RetainedStore) (error : AureliaError) (order : List SlotId) :
    List CompletionEffect × RetainedStore :=
  failSlots error (order.filter fun slot => !slot.lane.isA1) store

def beginShutdown (store : RetainedStore) (error : AureliaError) (order : List SlotId) :
    List CompletionEffect × RetainedStore :=
  failSlots error (order.filter fun slot => !slot.lane.isA1) store.setShutdown

def dropResponses (store : RetainedStore) (order : List SlotId) : RetainedStore :=
  (removeSlots order store).2

/-- The sweep leaves the ACK lane out, as the source does. -/
def markCallisReplayReady (store : RetainedStore) (callisId : CallisId) : RetainedStore :=
  { store with
    a1Error := store.a1Error.sweep callisId
    a2 := store.a2.sweep callisId
    a3 := store.a3.sweep callisId }

def markSlotReplayReady (store : RetainedStore) (id : SlotId) : RetainedStore :=
  match store.slot id with
  | none => store
  | some slot =>
    match slot.item, slot.state.lastSent with
    | some (.tracked _), some lastSent => store.requeue id slot true (.replayReady lastSent)
    | _, _ => store

def markSlotsReplayReady (store : RetainedStore) (slots : List SlotId) : RetainedStore :=
  slots.foldl markSlotReplayReady store

def markAllTrackedReplayReady (store : RetainedStore) (order : List SlotId) : RetainedStore :=
  store.markSlotsReplayReady order

def markTrackedReplayReady (store : RetainedStore) (peerMsgIds : List PeerMessageId) :
    RetainedStore :=
  store.markSlotsReplayReady (peerMsgIds.filterMap fun peerMsgId => store.tracked.lookup peerMsgId)

/-- Whether a deadline key still names the item it was pushed for. -/
def keyLive (store : RetainedStore) (key : DeadlineKey) : Bool :=
  match store.slot key.slot with
  | none => false
  | some slot =>
    slot.seq == key.seq && slot.originalDeadline == key.deadline && slot.state != .empty

/-- The body of the expiry loop over the popped keys: dead keys are skipped. -/
def removeLiveKeys : List DeadlineKey → RetainedStore → List RetainedItem × RetainedStore
  | [], store => ([], store)
  | key :: rest, store =>
    if store.keyLive key then
      match store.removeBySlot key.slot with
      | none => removeLiveKeys rest store
      | some (item, store) =>
        let (items, store) := removeLiveKeys rest store
        (item :: items, store)
    else removeLiveKeys rest store

/-- The loop pops while the top is due.  Its body leaves the heap alone, so the popped keys are
handled in order and the rest of the heap is put back at the end. -/
def expireDue (store : RetainedStore) (now : Instant) : List CompletionEffect × RetainedStore :=
  let (due, deadlines) := store.deadlines.popWhile fun key => decide (key.deadline ≤ now)
  let (items, store) := removeLiveKeys due store
  (items.flatMap (itemEffects (.error (.new .sendTimeout))),
    { store with deadlines := deadlines })

/-- Dead keys at the top are popped; the deadline of the first live one is reported. -/
def nextDeadline (store : RetainedStore) : Option Instant × RetainedStore :=
  let deadlines := (store.deadlines.popWhile fun key => !store.keyLive key).2
  (deadlines.peek.map DeadlineKey.deadline, { store with deadlines := deadlines })

def deadline (store : RetainedStore) (peerMsgId : PeerMessageId) : Option Instant :=
  (store.tracked.lookup peerMsgId).bind fun slot =>
    (store.slot slot).map RetainedSlot.originalDeadline

end RetainedStore

def claimToFrame (claim : RetainedClaim) : OutboundFrame :=
  match claim.item with
  | .ack peerMsgId => .ack peerMsgId
  | .error _ frame => frame
  | .message _ message => .message message

def claimMessageId (claim : RetainedClaim) : Option PeerMessageId :=
  match claim.item with
  | .message peerMsgId _ => some peerMsgId
  | .ack _ | .error .. => none

/-- The public operations that take the store by mutable reference.  `order` is the order in
which a walk over an index visits its slots. -/
inductive Op where
  | setCapacities (capacities : RetainedCapacities) (now : Instant)
  | setShutdown
  | insertAck (peerMsgId : PeerMessageId) (deadline now : Instant)
  | insertError (peerMsgId : PeerMessageId) (frame : OutboundFrame) (deadline now : Instant)
  | insertTracked (tracked : TrackedOutbound) (deadline now : Instant)
  | claimNext (callisId : CallisId)
  | completeWrite (claim : RetainedClaim) (result : Except AureliaError Unit)
  | ack (peerMsgId : PeerMessageId)
  | failOne (peerMsgId : PeerMessageId) (error : AureliaError)
  | failAll (error : AureliaError) (order : List SlotId)
  | failNonA1 (error : AureliaError) (order : List SlotId)
  | markCallisReplayReady (callisId : CallisId)
  | markAllTrackedReplayReady (order : List SlotId)
  | markTrackedReplayReady (peerMsgIds : List PeerMessageId)
  | expireDue (now : Instant)
  | nextDeadline
  | beginShutdown (error : AureliaError) (order : List SlotId)
  | dropResponses (order : List SlotId)

inductive Output where
  | none
  | response (outcome : ResponseInsertOutcome)
  | tracked (result : Except RetainedInsertError Unit)
  | claim (claim : Option RetainedClaim)
  | effects (effects : List CompletionEffect)
  | deadline (deadline : Option Instant)

def Output.completions : Output → List CompletionEffect
  | .effects completed => completed
  | _ => []

/-- The walks of an operation visit the slots of the index it reads. -/
def Op.Ordered (store : RetainedStore) : Op → Prop
  | .failAll _ order | .failNonA1 _ order | .markAllTrackedReplayReady order
  | .beginShutdown _ order => store.tracked.ValueOrder order
  | .dropResponses order => store.responses.ValueOrder order
  | _ => True

open RetainedStore in
def step (store : RetainedStore) : Op → Except Panic (Output × RetainedStore)
  | .setCapacities capacities now => .ok (.none, store.setCapacities capacities now)
  | .setShutdown => .ok (.none, store.setShutdown)
  | .insertAck peerMsgId deadline now =>
    (store.insertAck peerMsgId deadline now).map fun (outcome, next) =>
      (.response outcome, next)
  | .insertError peerMsgId frame deadline now =>
    (store.insertError peerMsgId frame deadline now).map fun (outcome, next) =>
      (.response outcome, next)
  | .insertTracked tracked deadline now =>
    (store.insertTracked tracked deadline now).map fun (result, next) => (.tracked result, next)
  | .claimNext callisId =>
    let (claim, next) := store.claimNext callisId
    .ok (.claim claim, next)
  | .completeWrite claim result =>
    let (effects, next) := store.completeWrite claim result
    .ok (.effects effects, next)
  | .ack peerMsgId =>
    let (effect, next) := store.ack peerMsgId
    .ok (.effects effect.toList, next)
  | .failOne peerMsgId error =>
    let (effect, next) := store.failOne peerMsgId error
    .ok (.effects effect.toList, next)
  | .failAll error order =>
    let (effects, next) := store.failAll error order
    .ok (.effects effects, next)
  | .failNonA1 error order =>
    let (effects, next) := store.failNonA1 error order
    .ok (.effects effects, next)
  | .markCallisReplayReady callisId => .ok (.none, store.markCallisReplayReady callisId)
  | .markAllTrackedReplayReady order => .ok (.none, store.markAllTrackedReplayReady order)
  | .markTrackedReplayReady peerMsgIds => .ok (.none, store.markTrackedReplayReady peerMsgIds)
  | .expireDue now =>
    let (effects, next) := store.expireDue now
    .ok (.effects effects, next)
  | .nextDeadline =>
    let (deadline, next) := store.nextDeadline
    .ok (.deadline deadline, next)
  | .beginShutdown error order =>
    let (effects, next) := store.beginShutdown error order
    .ok (.effects effects, next)
  | .dropResponses order => .ok (.none, store.dropResponses order)

/-- The store as a machine: every operation that does not panic, with its output. -/
def system : Machine.System RetainedStore (Op × Output) where
  Initial store := ∃ capacities now, store = RetainedStore.new capacities now
  Step store label next := label.1.Ordered store ∧ step store label.1 = .ok (label.2, next)

end AureliaPeering.Store
