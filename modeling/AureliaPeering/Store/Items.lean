import AureliaPeering.Store.Safety

/-!
The items a store holds, without their slots: what its users can learn from an operation.
-/

namespace AureliaPeering.Store

namespace RetainedStore

def Stores (store : RetainedStore) (item : RetainedItem) : Prop :=
  ∃ id stored, store.contents id = some stored ∧ stored.item = item

def Tracks (store : RetainedStore) (peerMsgId : PeerMessageId) : Prop :=
  ∃ outbound : TrackedOutbound, store.Stores (.tracked outbound) ∧ outbound.peerMsgId = peerMsgId

variable {store : RetainedStore} {claim : RetainedClaim}

theorem new_stores (capacities : RetainedCapacities) (now : Instant) (item : RetainedItem) :
    ¬ (RetainedStore.new capacities now).Stores item := by
  rintro ⟨_, _, present, _⟩
  rw [new_contents] at present
  cases present

theorem claimFromQueue_item (inv : store.Invariant) (lane : RetainedLane)
    (replay : Bool) (callisId : CallisId)
    (claimed : (store.claimFromQueue lane replay callisId).1 = some claim) :
    ∃ item, store.Stores item ∧ claim.item = writeItem item := by
  rcases claimFromQueue_cases inv lane replay callisId with
    ⟨queue, scan, result⟩ | ⟨queue, key, slot, item, scan, item_eq, result⟩
  · rw [result] at claimed
    cases claimed
  · rw [result, Option.some.injEq] at claimed
    have found := (LaneState.scanQueue_found scan).1
    refine ⟨item, ⟨⟨lane, key.index⟩, ⟨item, slot.originalDeadline, slot.seq⟩, ?_, rfl⟩, ?_⟩
    · exact (LaneState.entry_eq_some_iff _ _ _).mpr
        ⟨slot, found, by simp [RetainedSlot.entry, item_eq]⟩
    · rw [← claimed, claimOf]

theorem claimLane_item (inv : store.Invariant) (lane : RetainedLane)
    (callisId : CallisId)
    (claimed : (store.claimLane lane callisId).1 = some claim) :
    ∃ item, store.Stores item ∧ claim.item = writeItem item := by
  unfold claimLane at claimed
  split at claimed
  · cases claimed
  split at claimed
  · exact claimFromQueue_item inv lane false callisId claimed
  obtain ⟨replay_inv, replay_eq⟩ := claimFromQueue_spec inv lane true callisId
  split at claimed
  · next replayed next taken =>
      refine claimFromQueue_item inv lane true callisId ?_
      rw [taken]
      exact claimed
  · next next missed =>
      rw [missed] at replay_inv replay_eq
      obtain ⟨item, stored, same⟩ := claimFromQueue_item replay_inv lane false callisId claimed
      exact ⟨item, by simpa only [Stores, replay_eq] using stored, same⟩

theorem claimLanes_item (callisId : CallisId) (lanes : List RetainedLane)
    (inv : store.Invariant)
    (claimed : (claimLanes callisId lanes store).1 = some claim) :
    ∃ item, store.Stores item ∧ claim.item = writeItem item := by
  induction lanes generalizing store with
  | nil => cases claimed
  | cons lane rest ih =>
    obtain ⟨lane_inv, lane_eq⟩ := claimLane_spec inv lane callisId
    unfold claimLanes at claimed
    split at claimed
    · next found next taken =>
        refine claimLane_item inv lane callisId ?_
        rw [taken]
        exact claimed
    · next next missed =>
        rw [missed] at lane_inv lane_eq
        obtain ⟨item, stored, same⟩ := ih lane_inv claimed
        exact ⟨item, by simpa only [Stores, lane_eq] using stored, same⟩

theorem failAll_stores (inv : store.Invariant) (error : AureliaError)
    {order : List SlotId} (ordered : store.tracked.ValueOrder order) {item : RetainedItem}
    (response : item.isTracked = false) (stored : store.Stores item) :
    (store.failAll error order).2.Stores item := by
  obtain ⟨id, entry, present, rfl⟩ := stored
  obtain ⟨_, _, contents_eq⟩ := removeSlots_spec order inv
  refine ⟨id, entry, (contents_eq id).trans ((if_neg ?_).trans present), rfl⟩
  intro listed
  obtain ⟨peerMsgId, indexed⟩ := (ordered.mem_iff id).mp listed
  obtain ⟨_, at_id, tracked, _⟩ := (inv.tracked_iff peerMsgId id).mp indexed
  cases present.symm.trans at_id
  cases response.symm.trans tracked

end RetainedStore

def Op.inserted : Op → Option RetainedItem
  | .insertTracked tracked _ _ => some (.tracked tracked)
  | op => op.response

variable {op : Op} {output : Output} {next store : RetainedStore}

theorem Change.of_present {before after : Contents}
    (change : Change op output before after) {id : SlotId} {stored : Entry}
    (present : after id = some stored) :
    before id = some stored ∨ op.inserted = some stored.item := by
  cases change with
  | kept => exact .inl present
  | @accepted tracked deadline now vacated seq inserts _ _ =>
    rw [Function.update_apply] at present
    split at present
    · cases present
      exact .inr (by rw [inserts]; rfl)
    · exact .inl present
  | @responded vacated response other _ _ asked _ =>
    rw [Function.update_apply] at present
    split at present
    · cases present
      refine .inr ?_
      cases op with
      | insertTracked tracked deadline now => exact absurd rfl (other tracked deadline now)
      | _ => exact asked
    · exact .inl present
  | completed _ _ _ removals _ | cleared _ _ removals _ =>
    exact .inl (removals.of_remaining present)

theorem stores_of_step (inv : store.Invariant) (ordered : op.Ordered store)
    (performed : step store op = .ok (output, next)) {item : RetainedItem}
    (stored : next.Stores item) : store.Stores item ∨ op.inserted = some item := by
  obtain ⟨id, held, present, rfl⟩ := stored
  have taken : system.Step store (op, output) next := ⟨ordered, performed⟩
  rcases (step_invariant inv taken).2.of_present present with before | inserted
  · exact .inl ⟨id, held, before, rfl⟩
  · exact .inr inserted

theorem stores_of_claim {callisId : CallisId} {claim : RetainedClaim}
    (inv : store.Invariant)
    (performed : step store (.claimNext callisId) = .ok (.claim (some claim), next)) :
    ∃ item, store.Stores item ∧ claim.item = writeItem item := by
  simp only [step, Except.ok.injEq, Prod.mk.injEq, Output.claim.injEq] at performed
  exact RetainedStore.claimLanes_item callisId _ inv performed.1

end AureliaPeering.Store
