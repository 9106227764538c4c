import AureliaPeering.Blob.InboundState
import AureliaPeering.Store.Items

/-!
An ERROR frame is offered to the retained store, to the chunks in flight, to the outbound streams
and to the inbound side in turn, under one number.
-/

namespace AureliaPeering.Blob

open Collections AureliaPeering.Ring Store BlobOutboundState

/-- What a peer keeps for the messages and blobs of both sides. -/
structure PeerTables where
  store : RetainedStore
  blob : BlobManager

/-- Whom an ERROR frame has failed: the sender of a message, a ring, an inbound receiver. -/
structure ErrorOutcome where
  completion : Option CompletionEffect
  ring : Option (PeerMessageId × OutboundRingBuffer)
  receiver : Option BlobReceiverState
  tables : PeerTables

namespace BlobManager

/-- `handle_error` as a whole.  A stream that fails by its own number is unregistered. -/
def handleError (blob : BlobManager) (peerMsgId : PeerMessageId) (error : AureliaError) :
    Option (PeerMessageId × OutboundRingBuffer) × Option BlobReceiverState × BlobManager :=
  let (entry, outbound) := blob.outbound.resolve peerMsgId
  let resolved := { blob with outbound }
  match entry with
  | some entry =>
    let ring := (outbound.streams.lookup entry.streamId).map fun ring =>
      (entry.streamId, ring.noteError peerMsgId error)
    let noted := { outbound with
      streams := outbound.streams.adjust entry.streamId fun ring =>
        ring.noteError peerMsgId error }
    (ring, none, { resolved with outbound := noted })
  | none =>
    match outbound.streams.lookup peerMsgId with
    | some ring =>
      (some (peerMsgId, (ring.fail error).close), none,
        resolved.unregisterOutboundStream peerMsgId)
    | none =>
      let (receiver, blob) := resolved.failInboundStream peerMsgId error
      (none, receiver, blob)

end BlobManager

namespace PeerTables

/-- The ERROR branch of `handle_inbound_frame` once its payload is decoded. -/
def handleErrorFrame (tables : PeerTables) (peerMsgId : PeerMessageId) (error : AureliaError) :
    ErrorOutcome :=
  let (completion, store) := tables.store.failOne peerMsgId error
  let (ring, receiver, blob) := tables.blob.handleError peerMsgId error
  ⟨completion, ring, receiver, ⟨store, blob⟩⟩

end PeerTables

def BlobOutboundState.queued (outbound : BlobOutboundState) (lane : BlobResponseLane) :
    List PeerMessageId :=
  (outbound.responseLane lane).filter fun id => (outbound.writeSlots.lookup id).isSome

/-- What is kept for the requests of the peer is the same.  A request that waits for its taberna is
known to the manager by its reservation alone. -/
structure Untouched (before after : BlobManager) : Prop where
  pending : ∀ id,
    after.inbound.pendingRequests.lookup id = before.inbound.pendingRequests.lookup id
  streams : ∀ id, after.inbound.recvStreams.lookup id = before.inbound.recvStreams.lookup id
  reserved : ∀ id, after.reservations.inbound.lookup id = before.reservations.inbound.lookup id
  slots : ∀ id, after.outbound.writeSlots.lookup id = before.outbound.writeSlots.lookup id
  lanes : ∀ lane, after.outbound.queued lane = before.outbound.queued lane

/-- Where an ERROR frame looks next, nothing of the peer has its number. -/
def Unshared (blob : BlobManager) (id : PeerMessageId) : Prop :=
  blob.outbound.writeSlots.lookup id = none ∧
    (blob.outbound.inflight.lookup id = none →
      ((blob.outbound.streams.lookup id).isSome →
        ∀ key slot, blob.outbound.writeSlots.lookup key = some slot → slot.streamId ≠ some id) ∧
      (blob.outbound.streams.lookup id = none →
        blob.inbound.pendingRequests.lookup id = none ∧
          blob.inbound.recvStreams.lookup id = none ∧
          blob.reservations.inbound.lookup id = none))

/-- The stream that an ERROR frame of this number may fail. -/
def errorOwner (blob : BlobManager) (id : PeerMessageId) : PeerMessageId :=
  match blob.outbound.inflight.lookup id with
  | some entry => entry.streamId
  | none => id

/-- The frame fails its message, or the stream of its chunk, and nothing else. -/
structure WithinRequest (before : PeerTables) (id : PeerMessageId) (error : AureliaError)
    (outcome : ErrorOutcome) : Prop where
  message : ∀ slot stored outbound, before.store.contents slot = some stored →
    stored.item = .tracked outbound → outbound.peerMsgId = id →
    outcome.completion = some ⟨id, outbound.ackTx, .error error⟩
  others : ∀ slot stored, before.store.contents slot = some stored →
    stored.item.isTracked = false ∨ stored.item.peerMsgId ≠ id →
    outcome.tables.store.contents slot = some stored
  chunk : ∀ entry ring, before.blob.outbound.inflight.lookup id = some entry →
    before.blob.outbound.streams.lookup entry.streamId = some ring →
    outcome.ring = some (entry.streamId, ring.noteError id error)
  rings : ∀ streamId, streamId ≠ errorOwner before.blob id →
    outcome.tables.blob.outbound.streams.lookup streamId =
      before.blob.outbound.streams.lookup streamId
  untouched : Untouched before.blob outcome.tables.blob

namespace PeerTables

variable {tables : PeerTables} {id : PeerMessageId} {error : AureliaError}
variable {slot : SlotId} {stored : Entry}

theorem message_of_handleErrorFrame (inv : tables.store.Invariant)
    {outbound : TrackedOutbound} (present : tables.store.contents slot = some stored)
    (isTracked : stored.item = .tracked outbound) (number : outbound.peerMsgId = id) :
    (tables.handleErrorFrame id error).completion =
      some ⟨id, outbound.ackTx, .error error⟩ := by
  have listed : tables.store.tracked.lookup id = some slot :=
    (inv.tracked_iff id slot).mpr ⟨stored, present, by simp [isTracked], by simp [isTracked,
      RetainedItem.peerMsgId, number]⟩
  rcases RetainedStore.completeOne_cases inv id (.error error) with
    ⟨absent, _⟩ | ⟨_, _, _, _, isPlace, isHeld, isOwner, _, completed, _⟩
  · cases absent.symm.trans listed
  · cases isPlace.symm.trans listed
    cases isHeld.symm.trans present
    cases isOwner.symm.trans isTracked
    simp [handleErrorFrame, RetainedStore.failOne, completed]

theorem others_of_handleErrorFrame (inv : tables.store.Invariant)
    (present : tables.store.contents slot = some stored)
    (other : stored.item.isTracked = false ∨ stored.item.peerMsgId ≠ id) :
    (tables.handleErrorFrame id error).tables.store.contents slot = some stored := by
  rcases RetainedStore.completeOne_cases inv id (.error error) with
    ⟨_, same⟩ | ⟨place, _, _, _, _, isHeld, isOwner, number, completed, _, contents⟩
  · simpa [handleErrorFrame, RetainedStore.failOne, same] using present
  · have apart : slot ≠ place := by
      rintro rfl
      cases isHeld.symm.trans present
      rw [isOwner] at other
      rcases other with response | foreign
      · simp at response
      · exact foreign number
    simpa [handleErrorFrame, RetainedStore.failOne, completed, contents, apart] using present

end PeerTables

namespace BlobOutboundState

theorem queued_congr {before after : BlobOutboundState} {lane : BlobResponseLane}
    (slots : ∀ id, after.writeSlots.lookup id = before.writeSlots.lookup id)
    (same : after.responseLane lane = before.responseLane lane) :
    after.queued lane = before.queued lane := by
  simp [queued, slots, same]

@[simp]
theorem responseLane_pruneResponseReady (outbound : BlobOutboundState) (lane : BlobResponseLane) :
    outbound.pruneResponseReady.responseLane lane = outbound.queued lane := by
  cases lane <;> rfl

theorem queued_pruneResponseReady (outbound : BlobOutboundState) (lane : BlobResponseLane) :
    outbound.pruneResponseReady.queued lane = outbound.queued lane := by
  rw [queued, responseLane_pruneResponseReady]
  exact List.filter_eq_self.mpr fun id listed => (List.mem_filter.mp listed).2

theorem lookup_resolve_of_free {outbound : BlobOutboundState} {id : PeerMessageId}
    (free : outbound.writeSlots.lookup id = none) (key : PeerMessageId) :
    (outbound.resolve id).2.writeSlots.lookup key = outbound.writeSlots.lookup key := by
  simp only [resolve, HashMap.lookup_erase_eq]
  split
  · rename_i same
    rw [same, free]
  · rfl

end BlobOutboundState

namespace BlobManager

variable {blob : BlobManager} {id : PeerMessageId} {error : AureliaError}
variable {entry : InflightBlobFrame} {ring : OutboundRingBuffer}

theorem handleError_of_inflight (inflight : blob.outbound.inflight.lookup id = some entry) :
    blob.handleError id error =
      ((blob.outbound.streams.lookup entry.streamId).map fun ring =>
          (entry.streamId, ring.noteError id error), none,
        { blob with
          outbound := { (blob.outbound.resolve id).2 with
            streams := blob.outbound.streams.adjust entry.streamId fun ring =>
              ring.noteError id error } }) := by
  simp [handleError, resolve, inflight]

theorem handleError_of_stream (idle : blob.outbound.inflight.lookup id = none)
    (isStream : blob.outbound.streams.lookup id = some ring) :
    blob.handleError id error =
      (some (id, (ring.fail error).close), none,
        { blob with outbound := (blob.outbound.resolve id).2 }.unregisterOutboundStream id) := by
  simp [handleError, resolve, idle, isStream]

theorem handleError_of_inbound (idle : blob.outbound.inflight.lookup id = none)
    (noStream : blob.outbound.streams.lookup id = none) :
    blob.handleError id error =
      (none, { blob with
        outbound := (blob.outbound.resolve id).2 }.failInboundStream id error) := by
  simp [handleError, resolve, idle, noStream]

theorem untouched_iff_of_inflight (inflight : blob.outbound.inflight.lookup id = some entry) :
    Untouched blob (blob.handleError id error).2.2 ↔
      blob.outbound.writeSlots.lookup id = none := by
  rw [handleError_of_inflight inflight]
  constructor
  · intro untouched
    have same := untouched.slots id
    simpa [resolve] using same.symm
  · intro free
    have slots := lookup_resolve_of_free free
    refine ⟨fun _ => rfl, fun _ => rfl, fun _ => rfl, slots, fun lane => ?_⟩
    exact queued_congr slots (by cases lane <;> rfl)

theorem untouched_iff_of_stream (idle : blob.outbound.inflight.lookup id = none)
    (isStream : blob.outbound.streams.lookup id = some ring) :
    Untouched blob (blob.handleError id error).2.2 ↔
      blob.outbound.writeSlots.lookup id = none ∧
        ∀ key slot, blob.outbound.writeSlots.lookup key = some slot → slot.streamId ≠ some id := by
  rw [handleError_of_stream idle isStream]
  have after : ∀ key,
      ((blob.outbound.resolve id).2.removeStream id).writeSlots.lookup key =
        ((blob.outbound.resolve id).2.writeSlots.lookup key).filter
          fun slot => decide (slot.streamId ≠ some id) :=
    fun key => HashMap.lookup_retain _ _ key
  constructor
  · intro untouched
    have slots : ∀ key, _ = _ := untouched.slots
    simp only [unregisterOutboundStream, releaseOutbound, after] at slots
    have free : blob.outbound.writeSlots.lookup id = none := by
      simpa [resolve] using (slots id).symm
    refine ⟨free, fun key slot found => ?_⟩
    have kept := (slots key).trans found
    exact of_decide_eq_true (Option.filter_eq_some_iff.mp kept).2
  · rintro ⟨free, foreign⟩
    have resolved := lookup_resolve_of_free free
    have slots : ∀ key, ((blob.outbound.resolve id).2.removeStream id).writeSlots.lookup key =
        blob.outbound.writeSlots.lookup key := by
      intro key
      rw [after, resolved]
      cases found : blob.outbound.writeSlots.lookup key with
      | none => rfl
      | some slot => simp [foreign key slot found]
    refine ⟨fun _ => rfl, fun _ => rfl, fun _ => rfl, slots, fun lane => ?_⟩
    exact (queued_pruneResponseReady _ lane).trans
      (queued_congr slots (by cases lane <;> rfl))

theorem untouched_iff_of_inbound (idle : blob.outbound.inflight.lookup id = none)
    (noStream : blob.outbound.streams.lookup id = none) :
    Untouched blob (blob.handleError id error).2.2 ↔
      blob.outbound.writeSlots.lookup id = none ∧
        blob.inbound.pendingRequests.lookup id = none ∧
        blob.inbound.recvStreams.lookup id = none ∧
        blob.reservations.inbound.lookup id = none := by
  rw [handleError_of_inbound idle noStream]
  constructor
  · intro untouched
    have free := untouched.slots id
    have pending := untouched.pending id
    have streams := untouched.streams id
    have reserved := untouched.reserved id
    cases isPending : blob.inbound.pendingRequests.lookup id with
    | some request =>
      simp [failInboundStream, removePendingRequest, setPendingRequests, releaseInbound,
        isPending] at pending
    | none =>
      simp only [failInboundStream, isPending, removeRecvStream, setRecvStreams, releaseInbound,
        resolve, AList.lookup_erase] at free streams reserved
      exact ⟨free.symm, rfl, streams.symm, reserved.symm⟩
  · rintro ⟨free, noRequest, noRecv, unreserved⟩
    have slots := lookup_resolve_of_free free
    have erased {Value : Type} {map : HashMap PeerMessageId Value} (absent : map.lookup id = none)
        (key : PeerMessageId) : (map.erase id).lookup key = map.lookup key := by
      rw [HashMap.lookup_erase_eq]
      split
      · rename_i same
        rw [same, absent]
      · rfl
    simp only [failInboundStream, noRequest, removeRecvStream, setRecvStreams, releaseInbound]
    refine ⟨fun _ => rfl, erased noRecv, erased unreserved, slots, fun lane => ?_⟩
    exact queued_congr slots (by cases lane <;> rfl)

theorem untouched_iff : Untouched blob (blob.handleError id error).2.2 ↔ Unshared blob id := by
  unfold Unshared
  cases inflight : blob.outbound.inflight.lookup id with
  | some entry =>
    rw [untouched_iff_of_inflight inflight]
    simp
  | none =>
    cases isStream : blob.outbound.streams.lookup id with
    | some ring =>
      rw [untouched_iff_of_stream inflight isStream]
      simp
    | none =>
      rw [untouched_iff_of_inbound inflight isStream]
      simp

theorem rings_of_handleError {streamId : PeerMessageId} (other : streamId ≠ errorOwner blob id) :
    (blob.handleError id error).2.2.outbound.streams.lookup streamId =
      blob.outbound.streams.lookup streamId := by
  unfold errorOwner at other
  cases inflight : blob.outbound.inflight.lookup id with
  | some entry =>
    simp only [inflight] at other
    simp [handleError_of_inflight inflight, HashMap.lookup_adjust, other]
  | none =>
    simp only [inflight] at other
    cases isStream : blob.outbound.streams.lookup id with
    | some ring =>
      rw [handleError_of_stream inflight isStream]
      exact AList.lookup_erase_ne other
    | none =>
      rw [handleError_of_inbound inflight isStream]
      unfold failInboundStream
      split <;> rfl

end BlobManager

/-- An ERROR frame stays within its own request exactly if, where it is offered next, nothing of the
peer shares its number. -/
theorem error_frame_within_request_iff (tables : PeerTables)
    (reached : Store.system.Reachable tables.store) (id : PeerMessageId) (error : AureliaError) :
    WithinRequest tables id error (tables.handleErrorFrame id error) ↔ Unshared tables.blob id := by
  have inv := reachable_invariant reached
  rw [← BlobManager.untouched_iff]
  constructor
  · exact fun within => within.untouched
  · intro untouched
    refine ⟨fun slot stored outbound => PeerTables.message_of_handleErrorFrame inv,
      fun slot stored => PeerTables.others_of_handleErrorFrame inv, ?_,
      fun streamId => BlobManager.rings_of_handleError, untouched⟩
    intro entry ring inflight isRing
    simp [PeerTables.handleErrorFrame, BlobManager.handleError_of_inflight inflight, isRing]

def pendingManager (id : PeerMessageId) : BlobManager :=
  { BlobManager.new 1 with
    inbound := ⟨AList.singleton id ⟨2, ⟨true, false, none⟩⟩, ∅, ∅⟩
    reservations := ⟨∅, AList.singleton id 64⟩ }

theorem exists_tracking_store (id : PeerMessageId) :
    ∃ store, Store.system.Reachable store ∧ store.Tracks id := by
  have start : Store.system.Reachable (RetainedStore.new ⟨1, 1, 1, 1⟩ 0) := .start ⟨_, _, rfl⟩
  have reached := start.take (.insertTracked ⟨⟨id, 1, 2, a3MessageTypeBase, 0, []⟩, 3⟩ 10 0, _)
    ⟨trivial, rfl⟩
  exact ⟨_, reached, ⟨⟨id, 1, 2, a3MessageTypeBase, 0, []⟩, 3⟩, ⟨⟨.a3, 0⟩, _, rfl, rfl⟩, rfl⟩

/-- The ERROR frame of message 7 beside a pending request 8. -/
theorem error_frame_within_request_apart :
    ∃ tables : PeerTables, Store.system.Reachable tables.store ∧ tables.store.Tracks 7 ∧
      tables.blob = pendingManager 8 ∧
      WithinRequest tables 7 (.new .tabernaBusy)
    (tables.handleErrorFrame 7 (.new .tabernaBusy)) := by
  obtain ⟨store, reached, tracks⟩ := exists_tracking_store 7
  refine ⟨⟨store, pendingManager 8⟩, reached, tracks, rfl, ?_⟩
  refine (error_frame_within_request_iff ⟨store, pendingManager 8⟩ reached 7 _).mpr ⟨rfl, ?_⟩
  exact fun _ => ⟨nofun, fun _ => ⟨rfl, rfl, rfl⟩⟩

/-- The ERROR frame of message 0 beside a pending request 0: the request is gone. -/
theorem error_frame_drops_request :
    ∃ tables : PeerTables, Store.system.Reachable tables.store ∧ tables.store.Tracks 0 ∧
      (tables.blob.inbound.pendingRequests.lookup 0).isSome ∧
      (tables.handleErrorFrame 0 (.new .tabernaBusy)).tables.blob.inbound.pendingRequests.lookup 0 =
        none := by
  obtain ⟨store, reached, tracks⟩ := exists_tracking_store 0
  exact ⟨⟨store, pendingManager 0⟩, reached, tracks, rfl, rfl⟩

end AureliaPeering.Blob
