import AureliaPeering.Callis.Reader

/-!
The requests that the receive loops hold.

An id that is pending has its original waiter in the loop that received it first, or in the hand of
that loop, and every reservation is held by a request, a stream or a clean-up.  A copy of the frame
on the same callis displaces the waiter, and some error returns give up a request without its
reservation.
-/

namespace AureliaPeering.Callis

open Collections Session Blob AureliaPeering.Ring
open Net (AcceptDecision InboundOutcome)

/-- What a loop stands for while it has a request: the entry of its id alone, also its reservation,
or the reservation as long as the request is listed as pending. -/
inductive Stage where
  | idle
  | gripping
  | waiting
deriving DecidableEq

/-- The channel of the decision on a request, and the stage of the request. -/
abbrev Holding := AcceptReceiver × Stage

def InboundWaiter.holding : InboundWaiter → Option Holding
  | .message _ acceptRx => some (acceptRx, .idle)
  | .blobAccept pending => some (pending.acceptRx, .gripping)
  | .blobCallis pending _ => some (pending.acceptRx, .waiting)
  | .duplicate _ => none

def HandPhase.stage : HandPhase → Stage
  | .begun _ | .answering _ => .idle
  | .reserved _ | .taken _ _ | .releasing _ => .gripping
  | .accepted | .waiting _ | .absent _ => .waiting

namespace Reader

def listed (reader : Reader) (id : PeerMessageId) : Option Holding :=
  (reader.waiters.lookup id).bind InboundWaiter.holding

def Holds (reader : Reader) (id : PeerMessageId) (holding : Holding) : Prop :=
  reader.listed id = some holding ∨
    ∃ hand, reader.hand = some hand ∧ hand.peerMsgId = id ∧
      (hand.pending.acceptRx, hand.phase.stage) = holding

def Original (reader : Reader) (id : PeerMessageId) (acceptRx : AcceptReceiver) : Prop :=
  ∃ stage, reader.Holds id (acceptRx, stage)

def Waits (reader : Reader) (id : PeerMessageId) : Prop :=
  ∃ acceptRx, reader.Holds id (acceptRx, .waiting)

/-- The loop holds a request that awaits its decision, or that is on its way between the tables. -/
def Grips (reader : Reader) (id : PeerMessageId) : Prop :=
  ∃ acceptRx, reader.Holds id (acceptRx, .gripping)

/-- What a loop has of the id that it works on. -/
def held (reader : Reader) (id : PeerMessageId) : Option Holding :=
  match reader.hand with
  | some hand => some (hand.pending.acceptRx, hand.phase.stage)
  | none => reader.listed id

/-- What the loop has in hand is of the id, and then no waiter stands for it. -/
structure Single (reader : Reader) (id : PeerMessageId) : Prop where
  onId : ∀ hand, reader.hand = some hand → hand.peerMsgId = id
  absent : reader.hand.isSome → reader.listed id = none

variable {reader : Reader} {id : PeerMessageId}

theorem held_of_free (free : reader.hand = none) : reader.held id = reader.listed id := by
  simp [held, free]

theorem held_of_hand {hand : Hand} (isHand : reader.hand = some hand) (id : PeerMessageId) :
    reader.held id = some (hand.pending.acceptRx, hand.phase.stage) := by
  simp [held, isHand]

theorem listed_of_waiter {waiter : InboundWaiter}
    (found : reader.waiters.lookup id = some waiter) : reader.listed id = waiter.holding := by
  simp [listed, found]

theorem listed_of_absent (absent : reader.waiters.lookup id = none) : reader.listed id = none := by
  simp [listed, absent]

theorem Single.holds_iff (single : reader.Single id) (holding : Holding) :
    reader.Holds id holding ↔ reader.held id = some holding := by
  unfold Holds
  cases isHand : reader.hand with
  | none => simp [held_of_free isHand]
  | some hand =>
    simp [held_of_hand isHand, single.onId hand isHand, single.absent (by simp [isHand])]

end Reader

namespace Reception

section Projections

variable (state : Reception) (sendQueueSize : Nat) (id : PeerMessageId)
  (result : Except AureliaError Unit) (reason : CancelReason)

@[simp] theorem readers_reply : (state.reply sendQueueSize id result).readers = state.readers := rfl
@[simp] theorem blob_reply : (state.reply sendQueueSize id result).blob = state.blob := rfl
@[simp] theorem begun_reply : (state.reply sendQueueSize id result).begun = state.begun := rfl
@[simp] theorem cleanups_reply :
    (state.reply sendQueueSize id result).cleanups = state.cleanups := rfl

theorem pending_reply (other : PeerMessageId) :
    (state.reply sendQueueSize id result).dedupe.pending.lookup other =
      if other = id then none else state.dedupe.pending.lookup other :=
  DedupeState.dedupeComplete_lookup ..

@[simp] theorem readers_cancelId :
    (state.cancelId sendQueueSize id reason).readers = state.readers := by
  unfold cancelId
  split <;> rfl

@[simp] theorem blob_cancelId : (state.cancelId sendQueueSize id reason).blob = state.blob := by
  unfold cancelId
  split <;> rfl

@[simp] theorem begun_cancelId : (state.cancelId sendQueueSize id reason).begun = state.begun := by
  unfold cancelId
  split <;> rfl

@[simp] theorem cleanups_cancelId :
    (state.cancelId sendQueueSize id reason).cleanups = state.cleanups := by
  unfold cancelId
  split <;> rfl

theorem pending_cancelId (other : PeerMessageId) :
    (state.cancelId sendQueueSize id reason).dedupe.pending.lookup other =
      if other = id then none else state.dedupe.pending.lookup other := by
  unfold cancelId
  split
  · exact DedupeState.dedupeComplete_lookup state.dedupe sendQueueSize id other
      (.error (.new .peerUnavailable))
  · exact DedupeState.removePending_lookup state.dedupe id other

end Projections

/-- Who stands for the reservation of an id. -/
def Held (state : Reception) (id : PeerMessageId) : Prop :=
  (state.streams.lookup id).isSome ∨ (∃ ops ∈ state.cleanups, .release id ∈ ops) ∨
    ∃ callis reader, state.readers.lookup callis = some reader ∧
      (reader.Grips id ∨ reader.Waits id ∧ (state.requests.lookup id).isSome)

/-- The loop that received a pending id first holds its original waiter. -/
def Attended (state : Reception) (id : PeerMessageId) : Prop :=
  ∃ callis acceptRx reader, state.begun.lookup id = some (callis, acceptRx) ∧
    state.readers.lookup callis = some reader ∧ reader.Original id acceptRx

/-- Some loop waits with the pending request of an id. -/
def Wanted (state : Reception) (id : PeerMessageId) : Prop :=
  ∃ callis reader, state.readers.lookup callis = some reader ∧ reader.Waits id

structure Kept (state : Reception) : Prop where
  pending : ∀ id, (state.dedupe.pending.lookup id).isSome → state.Attended id
  reserved : ∀ id, (state.reservations.lookup id).isSome → state.Held id
  requested : ∀ id, (state.requests.lookup id).isSome → state.Wanted id
  apart : ∀ callis reader hand, state.readers.lookup callis = some reader →
    reader.hand = some hand → reader.listed hand.peerMsgId = none

/-- Every loop still has what it had of an id. -/
def Keeps (state next : Reception) (id : PeerMessageId) : Prop :=
  ∀ callis reader, state.readers.lookup callis = some reader →
    ∃ later, next.readers.lookup callis = some later ∧
      ∀ holding, reader.Holds id holding → later.Holds id holding

section Keeps

variable {state next : Reception} {id : PeerMessageId} (keeps : Keeps state next id)

include keeps

theorem Attended.mono (begun : next.begun.lookup id = state.begun.lookup id)
    (attended : state.Attended id) : next.Attended id := by
  obtain ⟨callis, acceptRx, reader, isBegun, found, stage, holds⟩ := attended
  obtain ⟨later, isLater, kept⟩ := keeps callis reader found
  exact ⟨callis, acceptRx, later, begun.trans isBegun, isLater, stage, kept _ holds⟩

theorem Wanted.mono (wanted : state.Wanted id) : next.Wanted id := by
  obtain ⟨callis, reader, found, acceptRx, holds⟩ := wanted
  obtain ⟨later, isLater, kept⟩ := keeps callis reader found
  exact ⟨callis, later, isLater, acceptRx, kept _ holds⟩

theorem Held.mono (streams : (state.streams.lookup id).isSome → (next.streams.lookup id).isSome)
    (requests : (state.requests.lookup id).isSome → (next.requests.lookup id).isSome)
    (cleanups : (∃ ops ∈ state.cleanups, .release id ∈ ops) →
      ∃ ops ∈ next.cleanups, .release id ∈ ops)
    (held : state.Held id) : next.Held id := by
  rcases held with stream | release | ⟨callis, reader, found, holds⟩
  · exact .inl (streams stream)
  · exact .inr (.inl (cleanups release))
  · obtain ⟨later, isLater, kept⟩ := keeps callis reader found
    refine .inr (.inr ⟨callis, later, isLater, ?_⟩)
    rcases holds with ⟨acceptRx, grips⟩ | ⟨⟨acceptRx, waits⟩, isRequested⟩
    · exact .inl ⟨acceptRx, kept _ grips⟩
    · exact .inr ⟨⟨acceptRx, kept _ waits⟩, requests isRequested⟩

end Keeps

structure Local (state next : Reception) (id : PeerMessageId) : Prop where
  pending : ∀ other, other ≠ id →
    next.dedupe.pending.lookup other = state.dedupe.pending.lookup other
  begun : ∀ other, other ≠ id → next.begun.lookup other = state.begun.lookup other
  requests : ∀ other, other ≠ id → next.requests.lookup other = state.requests.lookup other
  streams : ∀ other, other ≠ id → next.streams.lookup other = state.streams.lookup other
  reservations : ∀ other, other ≠ id →
    next.reservations.lookup other = state.reservations.lookup other
  cleanups : next.cleanups = state.cleanups

section Local

variable {state next : Reception} {id : PeerMessageId} (here : Local state next id)

include here

theorem Local.setReader (callis : CallisId) (reader : Reader) :
    Local state (next.setReader callis reader) id :=
  ⟨here.pending, here.begun, here.requests, here.streams, here.reservations, here.cleanups⟩

theorem Local.pushOutcome (outcome : InboundOutcome) : Local state (next.pushOutcome outcome) id :=
  ⟨here.pending, here.begun, here.requests, here.streams, here.reservations, here.cleanups⟩

theorem Local.reply (sendQueueSize : Nat) (result : Except AureliaError Unit) :
    Local state (next.reply sendQueueSize id result) id :=
  { here with
    pending other apart :=
      ((pending_reply ..).trans (if_neg apart)).trans (here.pending other apart) }

theorem Local.cancelId (sendQueueSize : Nat) (reason : CancelReason) :
    Local state (next.cancelId sendQueueSize id reason) id where
  pending other apart :=
    ((pending_cancelId ..).trans (if_neg apart)).trans (here.pending other apart)
  begun := by simpa using here.begun
  requests := by simpa [Reception.requests] using here.requests
  streams := by simpa [Reception.streams] using here.streams
  reservations := by simpa [Reception.reservations] using here.reservations
  cleanups := by simpa using here.cleanups

end Local

section Blob

variable (state : Reception) (id : PeerMessageId)

theorem Local.refl : Local state state id :=
  ⟨fun _ _ => rfl, fun _ _ => rfl, fun _ _ => rfl, fun _ _ => rfl, fun _ _ => rfl, rfl⟩

theorem Local.reserveInbound (bytes : Nat) :
    Local state (state.setBlob (state.blob.reserveInbound id bytes)) id :=
  { Local.refl state id with reservations _ apart := AList.lookup_insert_ne apart }

theorem Local.releaseInbound : Local state (state.setBlob (state.blob.releaseInbound id)) id :=
  { Local.refl state id with reservations _ apart := AList.lookup_erase_ne apart }

theorem Local.addPendingRequest (request : PendingBlobRequest) :
    Local state (state.setBlob (state.blob.addPendingRequest id request)) id :=
  { Local.refl state id with requests _ apart := AList.lookup_insert_ne apart }

theorem Local.removePendingRequest :
    Local state (state.setBlob (state.blob.removePendingRequest id)) id :=
  { Local.refl state id with requests _ apart := AList.lookup_erase_ne apart }

theorem Local.insertRecvStream (stream : BlobRecvStream) :
    Local state (state.setBlob (state.blob.insertRecvStream id stream)) id :=
  { Local.refl state id with streams _ apart := AList.lookup_insert_ne apart }

end Blob

/-- A step of one loop that concerns one id. -/
structure Focus (state next : Reception) (callis : CallisId) (reader changed : Reader)
    (id : PeerMessageId) : Prop extends Local state next id where
  found : state.readers.lookup callis = some reader
  readers : ∀ other, next.readers.lookup other =
    if other = callis then some changed else state.readers.lookup other
  ended : changed.ended = reader.ended
  waiters : ∀ other, other ≠ id → changed.waiters.lookup other = reader.waiters.lookup other
  before : ∀ hand, reader.hand = some hand → hand.peerMsgId = id
  after : ∀ hand, changed.hand = some hand → hand.peerMsgId = id

section Focus

variable {state next : Reception} {callis : CallisId} {reader changed : Reader}
  {id other : PeerMessageId} (focus : Focus state next callis reader changed id)

include focus

theorem Focus.reader_found : next.readers.lookup callis = some changed :=
  (focus.readers callis).trans (if_pos rfl)

/-- The loop after the step, and every other one. -/
theorem Focus.reader_cases {another : CallisId} {held : Reader}
    (found : next.readers.lookup another = some held) :
    another = callis ∧ held = changed ∨
      another ≠ callis ∧ state.readers.lookup another = some held := by
  rw [focus.readers] at found
  split at found
  · rename_i same
    exact .inl ⟨same, (Option.some.inj found).symm⟩
  · rename_i apart
    exact .inr ⟨apart, found⟩

theorem Focus.successor {another : CallisId} {held : Reader}
    (found : state.readers.lookup another = some held) :
    (another = callis ∧ held = reader) ∨ next.readers.lookup another = some held := by
  rw [focus.readers]
  by_cases same : another = callis
  · subst same
    exact .inl ⟨rfl, Option.some.inj (found.symm.trans focus.found)⟩
  · rw [if_neg same]
    exact .inr found

/-- The loops other than that of the step keep what they have, so the one of the step decides. -/
theorem Focus.keeps (here : ∀ holding, reader.Holds other holding → changed.Holds other holding) :
    Keeps state next other := by
  intro another holder found
  rcases focus.successor found with ⟨rfl, rfl⟩ | isHolder
  · exact ⟨changed, focus.reader_found, here⟩
  · exact ⟨holder, isHolder, fun _ holds => holds⟩

theorem Focus.keeps_other (apart : other ≠ id) : Keeps state next other := by
  refine focus.keeps fun holding holds => ?_
  rcases holds with listed | ⟨hand, isHand, same, _⟩
  · refine .inl ?_
    rw [Reader.listed, focus.waiters other apart]
    exact listed
  · exact absurd (same.symm.trans (focus.before hand isHand)) apart

theorem Focus.reply (sendQueueSize : Nat) (result : Except AureliaError Unit) :
    Focus state (next.reply sendQueueSize id result) callis reader changed id :=
  { focus with toLocal := focus.toLocal.reply sendQueueSize result }

theorem Focus.pushOutcome (outcome : InboundOutcome) :
    Focus state (next.pushOutcome outcome) callis reader changed id :=
  { focus with toLocal := focus.toLocal.pushOutcome outcome }

theorem Focus.cancelId (sendQueueSize : Nat) (reason : CancelReason) :
    Focus state (next.cancelId sendQueueSize id reason) callis reader changed id :=
  { focus with
    toLocal := focus.toLocal.cancelId sendQueueSize reason
    readers := by simpa using focus.readers }

end Focus

theorem Kept.focus {state next : Reception} {callis : CallisId} {reader changed : Reader}
    {id : PeerMessageId} (kept : state.Kept) (focus : Focus state next callis reader changed id)
    (pending : (next.dedupe.pending.lookup id).isSome → next.Attended id)
    (reserved : (next.reservations.lookup id).isSome → next.Held id)
    (requested : (next.requests.lookup id).isSome → next.Wanted id)
    (free : changed.hand.isSome → changed.listed id = none) : next.Kept where
  pending other isPending := by
    by_cases same : other = id
    · subst same
      exact pending isPending
    · rw [focus.pending other same] at isPending
      exact (kept.pending other isPending).mono (focus.keeps_other same) (focus.begun other same)
  reserved other isReserved := by
    by_cases same : other = id
    · subst same
      exact reserved isReserved
    · rw [focus.reservations other same] at isReserved
      exact (kept.reserved other isReserved).mono (focus.keeps_other same)
        (focus.streams other same ▸ fun same => same)
        (focus.requests other same ▸ fun same => same) (focus.cleanups ▸ fun same => same)
  requested other isRequested := by
    by_cases same : other = id
    · subst same
      exact requested isRequested
    · rw [focus.requests other same] at isRequested
      exact (kept.requested other isRequested).mono (focus.keeps_other same)
  apart another held hand found isHand := by
    rcases focus.reader_cases found with ⟨_, rfl⟩ | ⟨_, before⟩
    · rw [focus.after hand isHand]
      exact free (by simp [isHand])
    · exact kept.apart another held hand before isHand

section Readers

variable (state : Reception) (callis : CallisId) (reader : Reader)

theorem lookup_setReader (other : CallisId) :
    (state.setReader callis reader).readers.lookup other =
      if other = callis then some reader else state.readers.lookup other :=
  HashMap.lookup_insert_eq ..

theorem lookup_same {state : Reception} {callis : CallisId} {reader : Reader}
    (found : state.readers.lookup callis = some reader) (other : CallisId) :
    state.readers.lookup other =
      if other = callis then some reader else state.readers.lookup other := by
  split
  · rename_i same
    rw [same, found]
  · rfl

theorem idleReader_eq_some {state : Reception} {callis : CallisId} {reader : Reader}
    (idle : state.idleReader callis = some reader) :
    state.readers.lookup callis = some reader ∧ reader.ended = false ∧ reader.hand = none := by
  obtain ⟨_, found, allowed⟩ := Option.bind_eq_some_iff.mp idle
  obtain ⟨⟨running, free⟩, ⟨⟩⟩ := Option.ite_none_right_eq_some.mp allowed
  exact ⟨found, running, free⟩

end Readers

theorem focus_setReader {state next : Reception} {callis : CallisId} {reader : Reader}
    {id : PeerMessageId} (changed : Reader) (here : Local state next id)
    (found : state.readers.lookup callis = some reader) (readers : next.readers = state.readers)
    (ended : changed.ended = reader.ended)
    (waiters : ∀ other, other ≠ id → changed.waiters.lookup other = reader.waiters.lookup other)
    (before : ∀ hand, reader.hand = some hand → hand.peerMsgId = id)
    (after : ∀ hand, changed.hand = some hand → hand.peerMsgId = id) :
    Focus state (next.setReader callis changed) callis reader changed id where
  toLocal := here.setReader callis changed
  found := found
  readers other := by
    rw [lookup_setReader, readers]
  ended := ended
  waiters := waiters
  before := before
  after := after

/-- Every loop holds what it held, and a new one nothing. -/
structure SameWork (before after : HashMap CallisId Reader) : Prop where
  forward : ∀ callis reader, before.lookup callis = some reader →
    ∃ changed, after.lookup callis = some changed ∧ changed.waiters = reader.waiters ∧
      changed.hand = reader.hand
  backward : ∀ callis changed hand, after.lookup callis = some changed → changed.hand = some hand →
    ∃ reader, before.lookup callis = some reader ∧ reader.waiters = changed.waiters ∧
      reader.hand = some hand

theorem SameWork.refl (readers : HashMap CallisId Reader) : SameWork readers readers :=
  ⟨fun _ reader found => ⟨reader, found, rfl, rfl⟩,
    fun _ reader _ found isHand => ⟨reader, found, rfl, isHand⟩⟩

theorem SameWork.setReader {readers : HashMap CallisId Reader} {callis : CallisId}
    {changed : Reader} (same : readers.lookup callis = none ∧ changed = .new ∨
      ∃ reader, readers.lookup callis = some reader ∧ changed.waiters = reader.waiters ∧
        changed.hand = reader.hand) : SameWork readers (readers.insert callis changed) where
  forward other held isHeld := by
    rw [HashMap.lookup_insert_eq]
    split
    · rename_i isCallis
      rw [isCallis] at isHeld
      rcases same with ⟨fresh, _⟩ | ⟨reader, found, waiters, hand⟩
      · cases fresh.symm.trans isHeld
      · cases found.symm.trans isHeld
        exact ⟨changed, rfl, waiters, hand⟩
    · exact ⟨held, isHeld, rfl, rfl⟩
  backward other held inHand isHeld isHand := by
    rw [HashMap.lookup_insert_eq] at isHeld
    split at isHeld
    · rename_i isCallis
      cases isHeld
      rw [isCallis]
      rcases same with ⟨_, rfl⟩ | ⟨reader, found, waiters, hand⟩
      · cases isHand
      · exact ⟨reader, found, waiters.symm, hand ▸ isHand⟩
    · exact ⟨held, isHeld, rfl, isHand⟩

theorem SameWork.keeps {state next : Reception} (work : SameWork state.readers next.readers)
    (id : PeerMessageId) : Keeps state next id := by
  intro callis reader found
  obtain ⟨changed, isChanged, waiters, hand⟩ := work.forward callis reader found
  refine ⟨changed, isChanged, fun holding holds => ?_⟩
  unfold Reader.Holds Reader.listed
  rw [waiters, hand]
  exact holds

theorem Kept.congr {state next : Reception} (kept : state.Kept)
    (pending : ∀ id, (next.dedupe.pending.lookup id).isSome →
      (state.dedupe.pending.lookup id).isSome)
    (begun : next.begun = state.begun) (work : SameWork state.readers next.readers)
    (reserved : ∀ id, (next.reservations.lookup id).isSome →
      (state.reservations.lookup id).isSome ∧ (state.Held id → next.Held id))
    (requested : ∀ id, (next.requests.lookup id).isSome → (state.requests.lookup id).isSome) :
    next.Kept where
  pending id isPending :=
    (kept.pending id (pending id isPending)).mono (work.keeps id) (by rw [begun])
  reserved id isReserved := (reserved id isReserved).2 (kept.reserved id (reserved id isReserved).1)
  requested id isRequested :=
    (kept.requested id (requested id isRequested)).mono (work.keeps id)
  apart callis changed hand isChanged isHand := by
    obtain ⟨reader, found, waiters, isHand'⟩ := work.backward callis changed hand isChanged isHand
    rw [Reader.listed, ← waiters]
    exact kept.apart callis reader hand found isHand'

end Reception

end AureliaPeering.Callis
