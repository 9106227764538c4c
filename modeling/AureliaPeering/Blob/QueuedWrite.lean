import AureliaPeering.Blob.Responses

/-!
One response frame, of any lane, from the moment it is queued until it is written.

It stays stored while transmitters come and go.  Only four things take it away: its own successful
write, an answer under its number, the end of its stream, and the failure of all streams.  An ACK
of a chunk frame is one of these responses.
-/

namespace AureliaPeering.Blob

open Collections AureliaPeering.Ring List Option

namespace BlobOutboundState

def Numbered (outbound : BlobOutboundState) : Prop :=
  ∀ id write, outbound.writeAt id = some write → write.peerMsgId = id

/-- What a lane and the transmitters know of the slot of a write. -/
structure Waits (ready : List PeerMessageId) (held : List BlobWriteLease) (write : BlobWriteLease)
    (slot : BlobWriteSlot) : Prop where
  same : slot.write = write
  stream : slot.streamId = write.streamId
  queued : slot.state.leasable = true → write.peerMsgId ∈ ready
  taken : slot.state.leasable = false → write ∈ held

/-- A response is stored, and it is in its lane or in the hands of a transmitter.  No lease of
another frame has its number. -/
structure Queued (outbound : BlobOutboundState) (held : List BlobWriteLease)
    (lane : BlobResponseLane) (write : BlobWriteLease) : Prop where
  isLane : write.lane = some lane
  stored : ∃ slot, outbound.writeSlots.lookup write.peerMsgId = some slot ∧
    Waits (outbound.responseLane lane) held write slot
  own : ∀ other ∈ held, other.peerMsgId = write.peerMsgId → other = write

section Queued

variable {outbound next : BlobOutboundState} {held : List BlobWriteLease} {lane : BlobResponseLane}
  {write other : BlobWriteLease} {slot : BlobWriteSlot} {ready : List PeerMessageId}
variable {index : Nat}

theorem Waits.inLane (same : slot.write = write) (stream : slot.streamId = write.streamId)
    (leasable : slot.state.leasable = true) (listed : write.peerMsgId ∈ ready) :
    Waits ready held write slot where
  same := same
  stream := stream
  queued _ := listed
  taken leased := absurd (leased.symm.trans leasable) Bool.false_ne_true

theorem Waits.inHand (same : slot.write = write) (stream : slot.streamId = write.streamId)
    (leased : slot.state.leasable = false) (isHeld : write ∈ held) :
    Waits ready held write slot where
  same := same
  stream := stream
  queued leasable := absurd (leased.symm.trans leasable) Bool.false_ne_true
  taken _ := isHeld

theorem writeAt_pushSlot (pushed id : PeerMessageId) :
    (outbound.pushSlot pushed).writeAt id = outbound.writeAt id := by
  rw [writeAt, writeSlots_pushSlot]
  rfl

theorem writeAt_requeueResponses (inflight : HashMap PeerMessageId InflightBlobFrame)
    (lost : CallisId → Bool) (order : List PeerMessageId) (id : PeerMessageId) :
    ({ outbound with inflight }.requeueResponses lost order).writeAt id = outbound.writeAt id := by
  rw [writeAt, BlobOutboundState.requeueResponses, writeSlots_foldl_pushSlot]
  simp only [HashMap.lookup_mapValues, Option.map_map, writeAt]
  congr 1
  funext slot
  rcases requeue_eq lost slot with ⟨_, _, requeued⟩ | same
  · simp [requeued]
  · simp [same]

theorem writeAt_enqueue {id : PeerMessageId}
    (found : (outbound.enqueueBlobWrite other).1.writeAt id = some write) :
    outbound.writeAt id = some write ∨ write = other ∧ id = other.peerMsgId ∧
      outbound.writeSlots.lookup other.peerMsgId = none ∧
      ∃ lane, other.lane = some lane ∧ outbound.laneFull lane = false := by
  unfold enqueueBlobWrite at found
  split at found
  · exact .inl found
  · rename_i lane isLane
    split_ifs at found with taken full
    · exact .inl found
    · exact .inl found
    · simp only [writeAt, writeSlots_pushReady, HashMap.lookup_insert_eq] at found
      split at found
      · rename_i same
        cases found
        exact .inr ⟨rfl, same, by simpa using taken, lane, isLane, by simpa using full⟩
      · exact .inl found

theorem writeAt_nextBlobWriteSlot (callisId : CallisId) (id : PeerMessageId) :
    (outbound.nextBlobWriteSlot callisId).2.writeAt id = outbound.writeAt id :=
  nextBlobWriteSlot_rule (fun result => result.2.writeAt id = outbound.writeAt id) rfl
    fun _ lane before => (writeAt_leaseFromLane callisId lane).trans before

theorem writeAt_erase {erased id : PeerMessageId}
    (found : ({ outbound with writeSlots := outbound.writeSlots.erase erased } :
      BlobOutboundState).writeAt id = some write) : outbound.writeAt id = some write := by
  simp only [writeAt, HashMap.lookup_erase_eq] at found
  split at found
  · cases found
  · exact found

theorem writeAt_finishBlobWriteAttempt {callisId : CallisId} {written : Bool} {id : PeerMessageId}
    (found : (outbound.finishBlobWriteAttempt other callisId written).writeAt id = some write) :
    outbound.writeAt id = some write := by
  have requeued : ((outbound.setSlotState other.peerMsgId (.replayReady callisId)).pushSlot
      other.peerMsgId).writeAt id = outbound.writeAt id :=
    (writeAt_pushSlot _ _).trans (writeAt_setSlotState _ _)
  unfold BlobOutboundState.finishBlobWriteAttempt at found
  split_ifs at found
  · cases other with
    | chunk streamId peerMsgId chunk => exact found
    | _ => exact requeued.symm.trans found
  · exact found
  · exact writeAt_erase found

theorem writeAt_removeStream {streamId id : PeerMessageId}
    (found : (outbound.removeStream streamId).writeAt id = some write) :
    outbound.writeAt id = some write := by
  obtain ⟨slot, stored, isWrite⟩ := map_eq_some_iff.mp found
  simp only [BlobOutboundState.removeStream, pruneResponseReady, HashMap.lookup_retain] at stored
  exact map_eq_some_iff.mpr ⟨slot, (filter_eq_some_iff.mp stored).1, isWrite⟩

variable (queued : outbound.Queued held lane write)

include queued

theorem Queued.writeAt_eq : outbound.writeAt write.peerMsgId = some write := by
  obtain ⟨slot, found, waits⟩ := queued.stored
  exact map_eq_some_iff.mpr ⟨slot, found, waits.same⟩

theorem Queued.apart (isHeld : other ∈ held) (different : other ≠ write) :
    write.peerMsgId ≠ other.peerMsgId :=
  fun same => different (queued.own other isHeld same.symm)

theorem Queued.frame
    (slots : next.writeSlots.lookup write.peerMsgId = outbound.writeSlots.lookup write.peerMsgId)
    (lanes : write.peerMsgId ∈ outbound.responseLane lane →
      write.peerMsgId ∈ next.responseLane lane) : next.Queued held lane write := by
  obtain ⟨slot, found, waits⟩ := queued.stored
  refine ⟨queued.isLane, ⟨slot, slots.trans found, ?_⟩, queued.own⟩
  exact { waits with queued := fun leasable => lanes (waits.queued leasable) }

theorem Queued.enqueue (other : BlobWriteLease) :
    (outbound.enqueueBlobWrite other).1.Queued held lane write := by
  unfold enqueueBlobWrite
  split
  · exact queued
  · split_ifs with present
    · exact queued
    · exact queued
    · refine queued.frame ?_ fun listed => (mem_responseLane_pushReady _ _ _ _ _).mpr (.inl ?_)
      · have apart : write.peerMsgId ≠ other.peerMsgId := by
          intro same
          obtain ⟨_, found, _⟩ := queued.stored
          rw [← same, found] at present
          exact present rfl
        simp [apart]
      · cases lane <;> exact listed

omit queued

theorem queued_enqueue (isLane : write.lane = some lane)
    (free : outbound.writeSlots.lookup write.peerMsgId = none)
    (room : outbound.laneFull lane = false)
    (own : ∀ other ∈ held, other.peerMsgId = write.peerMsgId → other = write) :
    (outbound.enqueueBlobWrite write).1.Queued held lane write := by
  have fresh : (outbound.writeSlots.lookup write.peerMsgId).isSome = false := by simp [free]
  simp only [enqueueBlobWrite, isLane, fresh, room, Bool.false_eq_true, if_false]
  refine ⟨isLane, ⟨⟨write.streamId, write, .ready⟩, by simp, .inLane rfl rfl rfl ?_⟩, own⟩
  exact (mem_responseLane_pushReady _ _ _ _ _).mpr (.inr ⟨rfl, rfl⟩)

section Kept

variable (queued : outbound.Queued held lane write)

include queued

theorem Queued.hold
    (apart : other.peerMsgId ≠ write.peerMsgId) :
    outbound.Queued (held ++ [other]) lane write := by
  obtain ⟨slot, found, waits⟩ := queued.stored
  refine ⟨queued.isLane, ⟨slot, found, ?_⟩, fun lease listed same => ?_⟩
  · exact { waits with taken := fun leased => mem_append_left _ (waits.taken leased) }
  · rcases mem_append.mp listed with old | new
    · exact queued.own lease old same
    · obtain rfl := mem_singleton.mp new
      exact absurd same apart

theorem Queued.leaseFromLane
    (numbered : outbound.Numbered) (callisId : CallisId) (source : BlobResponseLane) :
    (outbound.leaseFromLane callisId source).2.Queued
      (held ++ (outbound.leaseFromLane callisId source).1.toList) lane write := by
  obtain ⟨slot, found, waits⟩ := queued.stored
  unfold BlobOutboundState.leaseFromLane
  split
  · rename_i noneLeasable
    simp only [toList_none, append_nil]
    refine ⟨queued.isLane, ⟨slot, by simpa using found, ?_⟩, queued.own⟩
    refine { waits with queued := fun leasable => ?_ }
    have listed := waits.queued leasable
    by_cases same : source = lane
    · subst same
      have idle := firstLeasable_eq_none noneLeasable _ listed slot found
      exact absurd (leasable.symm.trans idle) (by simp)
    · cases source <;> cases lane <;> first | exact absurd rfl same | exact listed
  · rename_i leasedSlot leasedId rest first
    obtain ⟨isStored, _, others⟩ := firstLeasable_eq_some first
    have leasedNumber : leasedSlot.write.peerMsgId = leasedId :=
      numbered leasedId leasedSlot.write (map_eq_some_iff.mpr ⟨leasedSlot, isStored, rfl⟩)
    by_cases same : write.peerMsgId = leasedId
    · -- the response itself is leased
      subst same
      cases found.symm.trans isStored
      refine ⟨queued.isLane, ⟨{ slot with state := .writing callisId }, by simp,
        .inHand waits.same waits.stream rfl ?_⟩, ?_⟩
      · simp [waits.same]
      · intro lease listed number
        rcases mem_append.mp listed with old | new
        · exact queued.own lease old number
        · obtain rfl : lease = slot.write := by simpa using new
          exact waits.same
    · refine Queued.hold ?_ fun number => same (number.symm.trans leasedNumber)
      refine ⟨queued.isLane, ⟨slot, by simp [same, found], ?_⟩, queued.own⟩
      refine { waits with queued := fun leasable => ?_ }
      have listed := waits.queued leasable
      by_cases sameLane : source = lane
      · subst sameLane
        have behind := (others _ listed slot found leasable).resolve_left same
        cases source <;> exact behind
      · cases source <;> cases lane <;> first | exact absurd rfl sameLane | exact listed

theorem Queued.nextBlobWriteSlot
    (numbered : outbound.Numbered) (callisId : CallisId) :
    (outbound.nextBlobWriteSlot callisId).2.Queued
      (held ++ (outbound.nextBlobWriteSlot callisId).1.toList) lane write := by
  suffices both : (outbound.nextBlobWriteSlot callisId).2.Numbered ∧
      (outbound.nextBlobWriteSlot callisId).2.Queued
        (held ++ (outbound.nextBlobWriteSlot callisId).1.toList) lane write from both.2
  refine nextBlobWriteSlot_rule (fun result =>
    result.2.Numbered ∧ result.2.Queued (held ++ result.1.toList) lane write) ?_ ?_
  · exact ⟨numbered, by simpa using queued⟩
  · rintro _ source ⟨before, waiting⟩
    refine ⟨fun id write found => ?_, ?_⟩
    · exact before id write ((writeAt_leaseFromLane callisId source).symm.trans found)
    · exact Queued.leaseFromLane (by simpa using waiting) before callisId source

theorem Queued.markDispatchInflight
    (isHeld : other ∈ held) (callisId : CallisId) :
    (outbound.markDispatchInflight other callisId).Queued held lane write := by
  have marked : (outbound.setSlotState other.peerMsgId (.inFlight callisId)).Queued held lane
      write := by
    obtain ⟨slot, found, waits⟩ := queued.stored
    by_cases same : other = write
    · subst same
      refine ⟨queued.isLane, ⟨{ slot with state := .inFlight callisId }, ?_, ?_⟩, queued.own⟩
      · simp [BlobOutboundState.setSlotState, HashMap.lookup_adjust, found]
      · exact .inHand waits.same waits.stream rfl isHeld
    · refine queued.frame ?_ fun listed => by cases lane <;> exact listed
      simp [BlobOutboundState.setSlotState, HashMap.lookup_adjust, queued.apart isHeld same]
  cases other with
  | chunk streamId peerMsgId chunk => exact marked.frame rfl (by cases lane <;> exact id)
  | ack peerMsgId | error peerMsgId payload | finish streamId peerMsgId payload => exact marked

theorem Queued.release
    (isHeld : held[index]? = some other) (different : other ≠ write) :
    outbound.Queued (held.eraseIdx index) lane write := by
  obtain ⟨slot, found, waits⟩ := queued.stored
  refine ⟨queued.isLane, ⟨slot, found, ?_⟩, fun lease listed => ?_⟩
  · refine { waits with taken := fun leased => ?_ }
    exact Slots.mem_replace_of_ne isHeld (waits.taken leased) different.symm none
  · exact queued.own lease (mem_of_mem_eraseIdx listed)

theorem Queued.requeueSlot
    (isHeld : held[index]? = some other) (callisId : CallisId) :
    ((outbound.setSlotState other.peerMsgId (.replayReady callisId)).pushSlot
      other.peerMsgId).Queued (held.eraseIdx index) lane write := by
  by_cases same : other = write
  · subst same
    obtain ⟨slot, found, waits⟩ := queued.stored
    have stored : (outbound.setSlotState other.peerMsgId (.replayReady callisId)).writeSlots.lookup
        other.peerMsgId = some { slot with state := .replayReady callisId } := by
      simp [BlobOutboundState.setSlotState, HashMap.lookup_adjust, found]
    refine ⟨queued.isLane, ⟨{ slot with state := .replayReady callisId }, ?_,
      .inLane waits.same waits.stream rfl ?_⟩, ?_⟩
    · rw [writeSlots_pushSlot]
      exact stored
    · refine (mem_responseLane_pushSlot _ _ _ _).mpr (.inr ⟨?_, rfl⟩)
      simp [slotLane, stored, waits.same, queued.isLane]
    · exact fun lease listed => queued.own lease (mem_of_mem_eraseIdx listed)
  · have apart := queued.apart (mem_of_getElem? isHeld) same
    refine (queued.release isHeld same).frame ?_ fun listed => ?_
    · simp [BlobOutboundState.setSlotState, HashMap.lookup_adjust, apart]
    · exact (mem_responseLane_pushSlot _ _ _ _).mpr (.inl (by cases lane <;> exact listed))

theorem Queued.finishBlobWriteAttempt
    (isHeld : held[index]? = some other) (callisId : CallisId) {written : Bool}
    (unwritten : written = true → other ≠ write) :
    (outbound.finishBlobWriteAttempt other callisId written).Queued (held.eraseIdx index) lane
      write := by
  have requeued := queued.requeueSlot isHeld callisId
  unfold BlobOutboundState.finishBlobWriteAttempt
  split_ifs with failed isChunk
  · cases other with
    | chunk streamId peerMsgId chunk =>
      refine (queued.release isHeld ?_).frame rfl (by cases lane <;> exact id)
      rintro rfl
      cases queued.isLane
    | ack peerMsgId | error peerMsgId payload | finish streamId peerMsgId payload => exact requeued
  · exact queued.release isHeld (unwritten (by simpa using failed))
  · have different := unwritten (by simpa using failed)
    refine (queued.release isHeld different).frame ?_ (by cases lane <;> exact id)
    simp [queued.apart (mem_of_getElem? isHeld) different]

theorem Queued.resolve {peerMsgId : PeerMessageId}
    (apart : peerMsgId ≠ write.peerMsgId) :
    (outbound.resolve peerMsgId).2.Queued held lane write := by
  refine queued.frame ?_ (by cases lane <;> exact id)
  simp [BlobOutboundState.resolve, apart.symm]

theorem Queued.requeue
    (inflight : HashMap PeerMessageId InflightBlobFrame) {lost : CallisId → Bool}
    {order : List PeerMessageId} (walk : order.Perm (outbound.heldSlots lost)) :
    ({ outbound with inflight }.requeueResponses lost order).Queued held lane write := by
  obtain ⟨slot, found, waits⟩ := queued.stored
  have mapped : (outbound.writeSlots.mapValues (BlobWriteSlot.requeue lost)).lookup
      write.peerMsgId = some (slot.requeue lost) := by
    simp [HashMap.lookup_mapValues, found]
  refine ⟨queued.isLane, ⟨slot.requeue lost, ?_, ?_⟩, queued.own⟩
  · rw [BlobOutboundState.requeueResponses, writeSlots_foldl_pushSlot]
    exact mapped
  · rcases requeue_eq lost slot with ⟨isLost, _, requeued⟩ | same
    · rw [requeued]
      refine .inLane waits.same waits.stream rfl ?_
      refine (mem_responseLane_foldl_pushSlot _ _ _ _).mpr (.inr ⟨?_, ?_⟩)
      · simp [slotLane, mapped, requeued, waits.same, queued.isLane]
      · exact walk.mem_iff.mpr (mem_heldSlots.mpr ⟨slot, found, isLost⟩)
    · rw [same]
      refine { waits with queued := fun leasable => ?_ }
      refine (mem_responseLane_foldl_pushSlot _ _ _ _).mpr (.inl ?_)
      cases lane <;> exact waits.queued leasable

theorem Queued.removeStream {streamId : PeerMessageId}
    (apart : write.streamId ≠ some streamId) :
    (outbound.removeStream streamId).Queued held lane write := by
  obtain ⟨slot, found, waits⟩ := queued.stored
  have stays : (outbound.writeSlots.retain fun _ slot => slot.streamId ≠ some streamId).lookup
      write.peerMsgId = some slot := by
    simp [HashMap.lookup_retain, found, waits.stream, apart]
  refine queued.frame (stays.trans found.symm) fun listed => ?_
  cases lane <;> exact mem_filter.mpr ⟨listed, isSome_iff_exists.mpr ⟨slot, stays⟩⟩

end Kept

end Queued

end BlobOutboundState

namespace ResponseRun

open BlobOutboundState

/-- The steps that do not take a response away. -/
def Spares (run : ResponseRun) (write : BlobWriteLease) : Label → Prop
  | .leaseChunk _ _ peerMsgId _ | .handleAck peerMsgId | .handleError peerMsgId =>
    peerMsgId ≠ write.peerMsgId
  | .finishWrite index true => ∀ held ∈ run.held[index]?, held.write ≠ write
  | .removeStream streamId => write.streamId ≠ some streamId
  | .failAllStreams => False
  | _ => True

variable {run next : ResponseRun} {label : Label} {lane : BlobResponseLane} {write : BlobWriteLease}

theorem writes_mark {index : Nat} {held : HeldWrite} (isHeld : run.held[index]? = some held) :
    (run.held.set index { held with marked := true }).map HeldWrite.write = run.writes := by
  obtain ⟨bound, rfl⟩ := List.getElem?_eq_some_iff.mp isHeld
  rw [map_set, writes]
  conv_rhs => rw [← set_getElem_self bound]
  rw [map_set]

theorem writeAt_step {id : PeerMessageId} (stepped : run.step label = some next)
    (found : next.outbound.writeAt id = some write) :
    run.outbound.writeAt id = some write ∨
      (label = .handleChunk id ∧ write = .ack id ∨ label = .respond write) ∧
        next.writes = run.writes ∧ next.outbound = (run.outbound.enqueueBlobWrite write).1 ∧
        id = write.peerMsgId ∧ run.outbound.writeSlots.lookup write.peerMsgId = none ∧
        ∃ lane, write.lane = some lane ∧ run.outbound.laneFull lane = false := by
  cases label with
  | handleChunk peerMsgId =>
    cases stepped
    refine (writeAt_enqueue found).imp_right ?_
    rintro ⟨rfl, rfl, fresh⟩
    exact ⟨.inl ⟨rfl, rfl⟩, rfl, rfl, rfl, fresh⟩
  | respond other =>
    cases stepped
    refine (writeAt_enqueue found).imp_right ?_
    rintro ⟨rfl, rfl, fresh⟩
    exact ⟨.inr rfl, rfl, rfl, rfl, fresh⟩
  | leaseResponse callisId =>
    have leased := run.outbound.writeAt_nextBlobWriteSlot callisId id
    simp only [ResponseRun.step] at stepped
    split at stepped
    all_goals
      rename_i result
      cases stepped
      rw [result] at leased
      exact .inl (leased.symm.trans found)
  | leaseChunk callisId streamId peerMsgId chunk =>
    cases stepped
    exact .inl found
  | markDispatch index =>
    obtain ⟨held, _, rfl⟩ := map_eq_some_iff.mp stepped
    exact .inl ((writeAt_markDispatchInflight _ _).symm.trans found)
  | finishWrite index written =>
    obtain ⟨held, _, finished⟩ := bind_eq_some_iff.mp stepped
    obtain ⟨_, ⟨⟩⟩ := ite_none_right_eq_some.mp finished
    exact .inl (writeAt_finishBlobWriteAttempt found)
  | handleAck peerMsgId | handleError peerMsgId =>
    cases stepped
    exact .inl (writeAt_erase found)
  | requeueCallis callisId order | requeueAll order =>
    obtain ⟨_, ⟨⟩⟩ := ite_none_right_eq_some.mp stepped
    exact .inl ((writeAt_requeueResponses _ _ _ _).symm.trans found)
  | removeStream streamId =>
    cases stepped
    exact .inl (writeAt_removeStream found)
  | failAllStreams =>
    cases stepped
    simp [writeAt, clear] at found

theorem numbered_step (numbered : run.outbound.Numbered) (stepped : run.step label = some next) :
    next.outbound.Numbered := by
  intro id write found
  rcases writeAt_step stepped found with before | ⟨_, _, _, own, _⟩
  · exact numbered id write before
  · exact own.symm

theorem queued_step (queued : run.outbound.Queued run.writes lane write)
    (numbered : run.outbound.Numbered) (stepped : run.step label = some next)
    (spares : run.Spares write label) : next.outbound.Queued next.writes lane write := by
  cases label with
  | handleChunk peerMsgId | respond other =>
    cases stepped
    exact queued.enqueue _
  | leaseResponse callisId =>
    have leased := queued.nextBlobWriteSlot numbered callisId
    simp only [ResponseRun.step] at stepped
    split at stepped
    all_goals
      rename_i result
      cases stepped
      rw [result] at leased
      simpa [writes, take] using leased
  | leaseChunk callisId streamId peerMsgId chunk =>
    cases stepped
    rw [writes, take, map_append]
    exact queued.hold spares
  | markDispatch index =>
    obtain ⟨held, isHeld, rfl⟩ := map_eq_some_iff.mp stepped
    rw [writes, writes_mark isHeld]
    exact queued.markDispatchInflight
      (mem_map_of_mem (mem_of_getElem? isHeld)) held.callisId
  | finishWrite index written =>
    obtain ⟨held, isHeld, finished⟩ := bind_eq_some_iff.mp stepped
    obtain ⟨_, ⟨⟩⟩ := ite_none_right_eq_some.mp finished
    have isWrite : run.writes[index]? = some held.write := by simp [writes, isHeld]
    rw [writes, ← eraseIdx_map]
    refine queued.finishBlobWriteAttempt isWrite held.callisId ?_
    rintro rfl
    exact spares held isHeld
  | handleAck peerMsgId | handleError peerMsgId =>
    cases stepped
    exact queued.resolve spares
  | requeueCallis callisId order | requeueAll order =>
    obtain ⟨walk, ⟨⟩⟩ := ite_none_right_eq_some.mp stepped
    exact queued.requeue _ walk
  | removeStream streamId =>
    cases stepped
    exact queued.removeStream spares
  | failAllStreams => exact spares.elim

/-! ### The acknowledgements of chunk frames -/

/-- Every ACK that is stored is queued, and so is every one that is due and was admitted. -/
structure Inv (run : ResponseRun) : Prop where
  numbered : run.outbound.Numbered
  queued : ∀ id, run.outbound.StoresAck id → run.outbound.Queued run.writes .ack (.ack id)
  due : ∀ entry ∈ run.due, entry.admitted = true → run.outbound.StoresAck entry.peerMsgId

variable {entry : AckDue} {id : PeerMessageId}

theorem Inv.ackQueued (inv : run.Inv)
    (isDue : entry ∈ run.due) (admitted : entry.admitted = true) :
    run.AckQueued entry.peerMsgId := by
  obtain ⟨slot, found, waits⟩ := (inv.queued _ (inv.due entry isDue admitted)).stored
  refine ⟨slot, found, waits.same, ?_⟩
  cases leasable : slot.state.leasable with
  | true => exact .inl ⟨rfl, waits.queued leasable⟩
  | false => exact .inr (mem_map.mp (waits.taken leasable))

theorem mem_settle {due : List AckDue} {write : BlobWriteLease} {written : Bool} :
    entry ∈ settle due write written ↔
      entry ∈ due ∧ (written = true → write ≠ .ack entry.peerMsgId) := by
  cases written <;> simp [settle]

def Survives (run : ResponseRun) (id : PeerMessageId) (label : Label) : Prop :=
  label ≠ .failAllStreams ∧ ∀ index, label = .finishWrite index true →
    ∀ held ∈ run.held[index]?, held.write ≠ .ack id

theorem Inv.survives (inv : run.Inv) (stepped : run.step label = some next)
    (apart : run.Apart label) (stored : run.outbound.StoresAck id)
    (survives : run.Survives id label) : next.outbound.Queued next.writes .ack (.ack id) := by
  refine queued_step (inv.queued id stored) inv.numbered stepped ?_
  cases label with
  | leaseChunk _ _ peerMsgId _ | handleAck peerMsgId | handleError peerMsgId =>
    rintro rfl
    exact apart stored
  | finishWrite index written =>
    cases written with
    | true => exact survives.2 index rfl
    | false => trivial
  | removeStream streamId => nofun
  | failAllStreams => exact absurd rfl survives.1
  | _ => trivial

theorem survives_of_stored (stepped : run.step label = some next)
    (stored : next.outbound.StoresAck id) : run.Survives id label := by
  constructor
  · rintro rfl
    cases stepped
    simp [StoresAck, writeAt, clear] at stored
  · rintro index rfl held isHeld isAck
    obtain ⟨_, same, finished⟩ := bind_eq_some_iff.mp stepped
    cases same.symm.trans isHeld
    obtain ⟨_, ⟨⟩⟩ := ite_none_right_eq_some.mp finished
    simp [StoresAck, writeAt, isAck, finishBlobWriteAttempt, BlobWriteLease.isChunk,
      BlobWriteLease.peerMsgId] at stored

theorem due_step (stepped : run.step label = some next) (listed : entry ∈ next.due) :
    entry ∈ run.due ∧ run.Survives entry.peerMsgId label ∨
      label = .handleChunk entry.peerMsgId ∧ entry.admitted = !run.outbound.laneFull .ack := by
  cases label with
  | handleChunk peerMsgId =>
    cases stepped
    rcases mem_append.mp listed with old | new
    · exact .inl ⟨old, nofun, nofun⟩
    · cases mem_singleton.mp new
      exact .inr ⟨rfl, rfl⟩
  | leaseResponse callisId =>
    simp only [ResponseRun.step] at stepped
    split at stepped <;> cases stepped <;> exact .inl ⟨listed, nofun, nofun⟩
  | markDispatch index =>
    obtain ⟨_, _, rfl⟩ := map_eq_some_iff.mp stepped
    exact .inl ⟨listed, nofun, nofun⟩
  | finishWrite index written =>
    obtain ⟨held, isHeld, finished⟩ := bind_eq_some_iff.mp stepped
    obtain ⟨_, ⟨⟩⟩ := ite_none_right_eq_some.mp finished
    obtain ⟨old, unwritten⟩ := mem_settle.mp listed
    refine .inl ⟨old, nofun, ?_⟩
    rintro _ ⟨⟩ other isOther
    cases isHeld.symm.trans isOther
    exact unwritten rfl
  | requeueCallis callisId order | requeueAll order =>
    obtain ⟨_, ⟨⟩⟩ := ite_none_right_eq_some.mp stepped
    exact .inl ⟨listed, nofun, nofun⟩
  | failAllStreams =>
    cases stepped
    cases listed
  | respond | leaseChunk | handleAck | handleError | removeStream =>
    cases stepped
    exact .inl ⟨listed, nofun, nofun⟩

theorem Inv.step (inv : run.Inv)
    (stepped : run.step label = some next) (apart : run.Apart label) : next.Inv := by
  refine ⟨numbered_step inv.numbered stepped, fun id stored => ?_, fun entry listed admitted => ?_⟩
  · rcases writeAt_step stepped stored with before | ⟨reason, held, outbound, _, fresh⟩
    · exact inv.survives stepped apart before (survives_of_stored stepped stored)
    · obtain ⟨free, lane, isLane, room⟩ := fresh
      cases isLane
      rw [outbound, held]
      refine queued_enqueue rfl free room ?_
      rcases reason with ⟨rfl, _⟩ | rfl
      · exact apart.2
      · exact apart
  · rcases due_step stepped listed with ⟨old, survives⟩ | ⟨rfl, isAdmitted⟩
    · exact (inv.survives stepped apart (inv.due entry old admitted) survives).writeAt_eq
    · cases stepped
      exact storesAck_enqueue apart.1 (by simpa [isAdmitted] using admitted)

theorem inv_initial (sendQueueSize : Nat) : (initial sendQueueSize).Inv where
  numbered id write found := by simp [initial, writeAt, BlobOutboundState.new] at found
  queued id stored := by simp [initial, StoresAck, writeAt, BlobOutboundState.new] at stored
  due := nofun

/-- In a run without colliding numbers, the ACK of every chunk frame that was handled while the ACK
lane had room is queued or being written, until it is written or all streams are failed. -/
theorem admitted_ack_queued (sendQueueSize : Nat) (run : ResponseRun)
    (reached : ((system sendQueueSize).restrict Apart).Reachable run) :
    ∀ entry ∈ run.due, entry.admitted = true → run.AckQueued entry.peerMsgId := by
  have inv : run.Inv := by
    refine reached.invariant ?_ ?_
    · rintro _ rfl
      exact inv_initial sendQueueSize
    · rintro _ _ _ inv ⟨stepped, apart⟩
      exact inv.step stepped apart
  exact fun entry isDue admitted => inv.ackQueued isDue admitted

/-- Two chunk frames are handled.  The ACK of the first is leased, its callis is lost, and it is
leased again and written, while the ACK of the second is in the hands of the other transmitter and
a local chunk is sent and acknowledged. -/
theorem admitted_ack_queued_replayed :
    ∃ run, ((system 1).restrict Apart).Reachable run ∧ run.due = [⟨5, true⟩] ∧
      run.AckQueued 5 := by
  obtain ⟨run, reached, due⟩ :
      ∃ run, ((system 1).restrict Apart).Reachable run ∧ run.due = [⟨5, true⟩] :=
    Machine.System.exists_guarded [.handleChunk 4, .handleChunk 5, .leaseResponse 1,
      .markDispatch 0, .requeueCallis 1 [4], .finishWrite 0 false, .leaseResponse 2,
      .markDispatch 0, .leaseResponse 2, .markDispatch 1, .finishWrite 1 true,
      .leaseChunk 2 0 3 ⟨⟨0, [], false⟩, 3, 2, 0⟩, .markDispatch 1, .handleAck 3] rfl (by decide)
  exact ⟨run, reached, due, admitted_ack_queued 1 run reached ⟨5, true⟩ (by simp [due]) rfl⟩

/-- The local chunk 5 is written and the chunk frame 5 of the peer handled.  The acknowledgement of
the one then removes the queued ACK of the other. -/
theorem stray_ack_removes_ack :
    ∃ run, (system 1).Reachable run ∧ run.due = [⟨5, true⟩] ∧ ¬run.AckQueued 5 := by
  obtain ⟨run, reached, isDue, removed⟩ :
      ∃ run, (system 1).Reachable run ∧ run.due = [⟨5, true⟩] ∧
        run.outbound.writeSlots.lookup 5 = none :=
    Machine.System.exists_reachable [.leaseChunk 1 0 5 ⟨⟨0, [], false⟩, 5, 1, 0⟩, .markDispatch 0,
      .finishWrite 0 true, .handleChunk 5, .handleAck 5] rfl (by decide)
  refine ⟨run, reached, isDue, ?_⟩
  rintro ⟨_, stored, _⟩
  cases removed.symm.trans stored

end ResponseRun

end AureliaPeering.Blob
