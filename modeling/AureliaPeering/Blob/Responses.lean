import AureliaPeering.Blob.OutboundState
import AureliaPeering.Lib.Machine

/-!
The acknowledgements of inbound chunk frames, from their handling until they are written.
-/

namespace AureliaPeering.Blob

open Collections AureliaPeering.Ring List

/-- A lease in the hands of a transmitter: taken, then marked as in flight, then written. -/
structure HeldWrite where
  callisId : CallisId
  write : BlobWriteLease
  marked : Bool
deriving DecidableEq, Repr

/-- A chunk frame that was handled with success and whose ACK has not been written since.  The flag
tells whether the ACK lane had room when it was handled. -/
structure AckDue where
  peerMsgId : PeerMessageId
  admitted : Bool
deriving DecidableEq, Repr

structure ResponseRun where
  outbound : BlobOutboundState
  held : List HeldWrite
  due : List AckDue

namespace ResponseRun

def initial (sendQueueSize : Nat) : ResponseRun := ⟨.new sendQueueSize, [], []⟩

/-- Message ids of both sides are arbitrary.  `respond` stands for every other response: an ERROR
frame, the ACK of a completion frame, or a completion frame under a locally allocated id. -/
inductive Label where
  | handleChunk (peerMsgId : PeerMessageId)
  | respond (write : BlobWriteLease)
  | leaseResponse (callisId : CallisId)
  | leaseChunk (callisId : CallisId) (streamId peerMsgId : PeerMessageId) (chunk : ChunkWriteLease)
  | markDispatch (index : Nat)
  | finishWrite (index : Nat) (written : Bool)
  | handleAck (peerMsgId : PeerMessageId)
  | handleError (peerMsgId : PeerMessageId)
  | requeueCallis (callisId : CallisId) (order : List PeerMessageId)
  | requeueAll (order : List PeerMessageId)
  | removeStream (streamId : PeerMessageId)
  | failAllStreams

def take (run : ResponseRun) (callisId : CallisId) (write : BlobWriteLease) : ResponseRun :=
  { run with held := run.held ++ [⟨callisId, write, false⟩] }

def settle (due : List AckDue) (write : BlobWriteLease) (written : Bool) : List AckDue :=
  if written then due.filter fun entry => write ≠ .ack entry.peerMsgId else due

def step (run : ResponseRun) (label : Label) : Option ResponseRun :=
  match label with
  | .handleChunk peerMsgId =>
    some { run with
      outbound := (run.outbound.enqueueBlobWrite (.ack peerMsgId)).1
      due := run.due ++ [⟨peerMsgId, !run.outbound.laneFull .ack⟩] }
  | .respond write => some { run with outbound := (run.outbound.enqueueBlobWrite write).1 }
  | .leaseResponse callisId =>
    match run.outbound.nextBlobWriteSlot callisId with
    | (some write, outbound) => some ({ run with outbound }.take callisId write)
    | (none, outbound) => some { run with outbound }
  | .leaseChunk callisId streamId peerMsgId chunk =>
    some (run.take callisId (.chunk streamId peerMsgId chunk))
  | .markDispatch index =>
    (run.held[index]?).map fun held =>
      { run with
        outbound := run.outbound.markDispatchInflight held.write held.callisId
        held := run.held.set index { held with marked := true } }
  | .finishWrite index written =>
    (run.held[index]?).bind fun held =>
      if held.marked then
        some { outbound := run.outbound.finishBlobWriteAttempt held.write held.callisId written
               held := run.held.eraseIdx index
               due := settle run.due held.write written }
      else none
  | .handleAck peerMsgId | .handleError peerMsgId =>
    some { run with outbound := (run.outbound.resolve peerMsgId).2 }
  | .requeueCallis callisId order =>
    if order.Perm (run.outbound.heldSlots (· = callisId)) then
      some { run with outbound := run.outbound.requeueInflightForCallis callisId order }
    else none
  | .requeueAll order =>
    if order.Perm (run.outbound.heldSlots fun _ => true) then
      some { run with outbound := run.outbound.requeueAllInflight order }
    else none
  | .removeStream streamId => some { run with outbound := run.outbound.removeStream streamId }
  | .failAllStreams => some { run with outbound := run.outbound.clear, due := [] }

def system (sendQueueSize : Nat) : Machine.System ResponseRun Label :=
  .ofStep (· = initial sendQueueSize) step

/-- The ACK is stored, and it is in its lane or in the hands of a transmitter. -/
def AckQueued (run : ResponseRun) (peerMsgId : PeerMessageId) : Prop :=
  ∃ slot, run.outbound.writeSlots.lookup peerMsgId = some slot ∧ slot.write = .ack peerMsgId ∧
    (slot.state.leasable = true ∧ peerMsgId ∈ run.outbound.ackReady ∨
      ∃ held ∈ run.held, held.write = .ack peerMsgId)

end ResponseRun

namespace BlobOutboundState

section Lanes

variable (outbound : BlobOutboundState)

@[simp]
theorem writeSlots_setResponseLane (lane : BlobResponseLane) (ready : List PeerMessageId) :
    (outbound.setResponseLane lane ready).writeSlots = outbound.writeSlots := by
  cases lane <;> rfl

@[simp]
theorem writeSlots_pushReady (lane : BlobResponseLane) (peerMsgId : PeerMessageId) :
    (outbound.pushReady lane peerMsgId).writeSlots = outbound.writeSlots := by
  cases lane <;> rfl

@[simp]
theorem mem_responseLane_pushReady (pushed lane : BlobResponseLane)
    (peerMsgId other : PeerMessageId) :
    other ∈ (outbound.pushReady pushed peerMsgId).responseLane lane ↔
      other ∈ outbound.responseLane lane ∨ pushed = lane ∧ other = peerMsgId := by
  cases pushed <;> cases lane <;> simp [pushReady, setResponseLane, responseLane]

@[simp]
theorem writeSlots_pushSlot (peerMsgId : PeerMessageId) :
    (outbound.pushSlot peerMsgId).writeSlots = outbound.writeSlots := by
  unfold pushSlot
  split <;> simp

theorem mem_responseLane_pushSlot (lane : BlobResponseLane) (peerMsgId other : PeerMessageId) :
    other ∈ (outbound.pushSlot peerMsgId).responseLane lane ↔
      other ∈ outbound.responseLane lane ∨
        outbound.slotLane peerMsgId = some lane ∧ other = peerMsgId := by
  unfold pushSlot
  split
  · rename_i pushed isLane
    simp [isLane]
  · rename_i noLane
    simp [noLane]

@[simp]
theorem writeSlots_foldl_pushSlot (order : List PeerMessageId) :
    (order.foldl pushSlot outbound).writeSlots = outbound.writeSlots := by
  induction order generalizing outbound with
  | nil => rfl
  | cons first rest ih => simp [ih]

theorem mem_responseLane_foldl_pushSlot (lane : BlobResponseLane) (order : List PeerMessageId)
    (other : PeerMessageId) :
    other ∈ (order.foldl pushSlot outbound).responseLane lane ↔
      other ∈ outbound.responseLane lane ∨ outbound.slotLane other = some lane ∧ other ∈ order := by
  induction order generalizing outbound with
  | nil => simp
  | cons first rest ih =>
    have sameSlot : (outbound.pushSlot first).slotLane other = outbound.slotLane other := by
      simp [slotLane]
    rw [foldl_cons, ih, mem_responseLane_pushSlot, sameSlot, mem_cons]
    constructor
    · rintro ((old | ⟨isLane, rfl⟩) | ⟨isLane, listed⟩)
      · exact .inl old
      · exact .inr ⟨isLane, .inl rfl⟩
      · exact .inr ⟨isLane, .inr listed⟩
    · rintro (old | ⟨isLane, rfl | listed⟩)
      · exact .inl (.inl old)
      · exact .inl (.inr ⟨isLane, rfl⟩)
      · exact .inr ⟨isLane, listed⟩

end Lanes

variable {slots : HashMap PeerMessageId BlobWriteSlot} {ids : List PeerMessageId}

theorem firstLeasable_eq_none (none : firstLeasable slots ids = none) :
    ∀ id ∈ ids, ∀ slot, slots.lookup id = some slot → slot.state.leasable = false := by
  induction ids with
  | nil => simp
  | cons first rest ih =>
    simp only [firstLeasable] at none
    intro id listed slot found
    split at none
    · rename_i stored isStored
      split at none
      · cases none
      · rename_i notLeasable
        rcases mem_cons.mp listed with rfl | later
        · cases isStored.symm.trans found
          simpa using notLeasable
        · exact ih none id later slot found
    · rename_i absent
      rcases mem_cons.mp listed with rfl | later
      · cases absent.symm.trans found
      · exact ih none id later slot found

theorem firstLeasable_eq_some
    {rest : List PeerMessageId} {slot : BlobWriteSlot} {id : PeerMessageId}
    (first : firstLeasable slots ids = some (slot, id, rest)) :
    slots.lookup id = some slot ∧ slot.state.leasable = true ∧
      ∀ other ∈ ids, ∀ otherSlot, slots.lookup other = some otherSlot →
        otherSlot.state.leasable = true → other = id ∨ other ∈ rest := by
  induction ids with
  | nil => cases first
  | cons head tail ih =>
    simp only [firstLeasable] at first
    split at first
    · rename_i stored isStored
      split at first
      · rename_i isLeasable
        cases first
        refine ⟨isStored, isLeasable, fun other listed _ _ _ => ?_⟩
        exact mem_cons.mp listed
      · rename_i notLeasable
        obtain ⟨found, leasable, others⟩ := ih first
        refine ⟨found, leasable, fun other listed otherSlot isOther otherLeasable => ?_⟩
        rcases mem_cons.mp listed with rfl | later
        · cases isStored.symm.trans isOther
          exact absurd otherLeasable notLeasable
        · exact others other later otherSlot isOther otherLeasable
    · rename_i absent
      obtain ⟨found, leasable, others⟩ := ih first
      refine ⟨found, leasable, fun other listed otherSlot isOther otherLeasable => ?_⟩
      rcases mem_cons.mp listed with rfl | later
      · cases absent.symm.trans isOther
      · exact others other later otherSlot isOther otherLeasable

def writeAt (outbound : BlobOutboundState) (id : PeerMessageId) : Option BlobWriteLease :=
  (outbound.writeSlots.lookup id).map BlobWriteSlot.write

def StoresAck (outbound : BlobOutboundState) (id : PeerMessageId) : Prop :=
  outbound.writeAt id = some (.ack id)

instance (outbound : BlobOutboundState) (id : PeerMessageId) : Decidable (outbound.StoresAck id) :=
  inferInstanceAs (Decidable (outbound.writeAt id = some (.ack id)))

/-- No lease of another frame has the number of the ACK. -/
def OwnNumber (held : List BlobWriteLease) (id : PeerMessageId) : Prop :=
  ∀ write ∈ held, write.peerMsgId = id → write = .ack id

instance (held : List BlobWriteLease) (id : PeerMessageId) : Decidable (OwnNumber held id) :=
  inferInstanceAs (Decidable (∀ write ∈ held, write.peerMsgId = id → write = .ack id))

section Keeping

variable {outbound : BlobOutboundState} {id : PeerMessageId}

theorem StoresAck.enqueue (stored : outbound.StoresAck id) (write : BlobWriteLease) :
    (outbound.enqueueBlobWrite write).1.StoresAck id := by
  unfold enqueueBlobWrite
  split
  · exact stored
  · split_ifs with taken
    · exact stored
    · exact stored
    · have other : id ≠ write.peerMsgId := by
        rintro rfl
        obtain ⟨_, found, _⟩ := Option.map_eq_some_iff.mp stored
        simp [found] at taken
      simpa [StoresAck, writeAt, other] using stored

theorem storesAck_enqueue (free : ∀ write ∈ outbound.writeAt id, write = .ack id)
    (room : outbound.laneFull .ack = false) :
    (outbound.enqueueBlobWrite (.ack id)).1.StoresAck id := by
  cases present : outbound.writeSlots.lookup id with
  | none =>
    simp [enqueueBlobWrite, StoresAck, writeAt, BlobWriteLease.lane, BlobWriteLease.peerMsgId,
      present, room]
  | some slot =>
    have isAck : outbound.StoresAck id := by
      simp [StoresAck, writeAt, present, free slot.write (by simp [writeAt, present])]
    exact isAck.enqueue (.ack id)

theorem writeAt_leaseFromLane (callisId : CallisId) (lane : BlobResponseLane) :
    (outbound.leaseFromLane callisId lane).2.writeAt id = outbound.writeAt id := by
  unfold leaseFromLane
  split
  · simp [writeAt]
  · rename_i slot leased rest first
    have stored := (firstLeasable_eq_some first).1
    simp only [writeAt, HashMap.lookup_insert_eq]
    split
    · rename_i same
      rw [same, stored]
      rfl
    · rfl

/-- What holds before a lane is tried and after each lane that was tried. -/
theorem nextBlobWriteSlot_rule {callisId : CallisId}
    (Holds : Option BlobWriteLease × BlobOutboundState → Prop) (start : Holds (none, outbound))
    (lease : ∀ state lane, Holds (none, state) → Holds (state.leaseFromLane callisId lane)) :
    Holds (outbound.nextBlobWriteSlot callisId) := by
  have acks := lease outbound .ack start
  unfold nextBlobWriteSlot
  split
  · rename_i write next leased
    exact leased ▸ acks
  · rename_i afterAcks noAck
    rw [noAck] at acks
    have errors := lease afterAcks .error acks
    split
    · rename_i write next leased
      exact leased ▸ errors
    · rename_i afterErrors noError
      rw [noError] at errors
      exact lease afterErrors .complete errors

theorem writeAt_setSlotState (peerMsgId : PeerMessageId) (state : BlobWriteSlotState) :
    (outbound.setSlotState peerMsgId state).writeAt id = outbound.writeAt id := by
  simp only [writeAt, BlobOutboundState.setSlotState, HashMap.lookup_adjust]
  split
  · rw [Option.map_map]
    rfl
  · rfl

theorem writeAt_markDispatchInflight (write : BlobWriteLease) (callisId : CallisId) :
    (outbound.markDispatchInflight write callisId).writeAt id = outbound.writeAt id := by
  cases write <;> exact writeAt_setSlotState _ _

theorem mem_heldSlots {lost : CallisId → Bool} :
    id ∈ outbound.heldSlots lost ↔
      ∃ slot, outbound.writeSlots.lookup id = some slot ∧ slot.state.holder.any lost = true := by
  simp only [heldSlots, mem_map, mem_filter]
  constructor
  · rintro ⟨⟨_, slot⟩, ⟨listed, isLost⟩, rfl⟩
    exact ⟨slot, AList.mem_lookup_iff.mpr listed, isLost⟩
  · rintro ⟨slot, found, isLost⟩
    exact ⟨⟨id, slot⟩, ⟨AList.mem_lookup_iff.mp found, isLost⟩, rfl⟩

/-- A slot whose holder is lost is ready again; every other slot is as it was. -/
theorem requeue_eq (lost : CallisId → Bool) (slot : BlobWriteSlot) :
    slot.state.holder.any lost = true ∧
        (∃ callisId, slot.requeue lost = { slot with state := .replayReady callisId }) ∨
      slot.requeue lost = slot := by
  unfold BlobWriteSlot.requeue
  split
  · rename_i callisId isHolder
    split_ifs with isLost
    · exact .inl ⟨by simp [isHolder, isLost], callisId, rfl⟩
    · exact .inr rfl
  · exact .inr rfl

end Keeping

end BlobOutboundState

namespace ResponseRun

open BlobOutboundState

def writes (run : ResponseRun) : List BlobWriteLease := run.held.map HeldWrite.write

/-- Numbers do not collide with the ACKs: an ACK is made while no other frame has its number, and
while it is stored its number is not the one of a local frame that is leased, acknowledged or
failed. -/
def Apart (run : ResponseRun) : Label → Prop
  | .handleChunk peerMsgId =>
    (∀ write ∈ run.outbound.writeAt peerMsgId, write = .ack peerMsgId) ∧
      OwnNumber run.writes peerMsgId
  | .respond (.ack peerMsgId) => OwnNumber run.writes peerMsgId
  | .leaseChunk _ _ peerMsgId _ | .handleAck peerMsgId | .handleError peerMsgId =>
    ¬run.outbound.StoresAck peerMsgId
  | _ => True

instance (run : ResponseRun) (label : Label) : Decidable (run.Apart label) := by
  unfold Apart
  split <;> infer_instance

end ResponseRun

end AureliaPeering.Blob
