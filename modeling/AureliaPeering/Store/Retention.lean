import AureliaPeering.Store.QueueFrames

/-!
How long an entry stays in its slot.

An operation leaves an entry as it is, or is one of those that may remove it and vacates its slot.
Nothing in between: item, deadline and sequence number are never altered.
-/

namespace AureliaPeering.Store

open Collections RetainedStore

/-- The operations that may remove an entry: a message is answered, failed, or swept away with the
others, a response is written or dropped with the others, and either may expire. -/
def Op.Removes (id : SlotId) (stored : Entry) : Op → Prop
  | .ack peerMsgId | .failOne peerMsgId _ =>
    stored.item.isTracked = true ∧ peerMsgId = stored.item.peerMsgId
  | .failAll _ _ | .failNonA1 _ _ | .beginShutdown _ _ => stored.item.isTracked = true
  | .completeWrite claim result =>
    stored.item.isTracked = false ∧ claim.slot = id ∧ result = .ok ()
  | .dropResponses _ => stored.item.isTracked = false
  | .expireDue now => stored.deadline ≤ now
  | _ => False

section Entry

variable {store : RetainedStore} {id : SlotId} {stored : Entry}
variable {order : List SlotId} {next : RetainedStore}
variable (inv : store.Invariant)

include inv

theorem entry_removeSlots (present : store.contents id = some stored) {slots : List SlotId}
    {removes : Prop} (listed : id ∈ slots → removes) :
    (removeSlots slots store).2.contents id = some stored ∨
      (removes ∧ (removeSlots slots store).2.contents id = none) := by
  rw [(removeSlots_spec slots inv).2.2 id]
  by_cases walked : id ∈ slots
  · rw [if_pos walked]
    exact .inr ⟨listed walked, rfl⟩
  · rw [if_neg walked]
    exact .inl present

theorem isTracked_of_tracked_order (present : store.contents id = some stored)
    (ordered : store.tracked.ValueOrder order) (listed : id ∈ order) :
    stored.item.isTracked = true := by
  obtain ⟨peerMsgId, found⟩ := (ordered.mem_iff id).mp listed
  obtain ⟨_, at_id, tracked, _⟩ := (inv.tracked_iff peerMsgId id).mp found
  cases present.symm.trans at_id
  exact tracked

theorem isTracked_of_responses_order (present : store.contents id = some stored)
    (ordered : store.responses.ValueOrder order) (listed : id ∈ order) :
    stored.item.isTracked = false := by
  obtain ⟨peerMsgId, found⟩ := (ordered.mem_iff id).mp listed
  obtain ⟨_, at_id, response, _⟩ := (inv.responses_iff peerMsgId id).mp found
  cases present.symm.trans at_id
  exact response

theorem entry_completeOne (present : store.contents id = some stored) (peerMsgId : PeerMessageId)
    (result : Except AureliaError Unit) :
    (store.completeOne peerMsgId result).2.contents id = some stored ∨
      ((stored.item.isTracked = true ∧ peerMsgId = stored.item.peerMsgId) ∧
        (store.completeOne peerMsgId result).2.contents id = none) := by
  rcases completeOne_cases inv peerMsgId result with
    ⟨_, unchanged⟩ | ⟨other, _, _, _, _, at_other, item_eq, same_id, completed, _,
      contents_eq⟩
  · rw [unchanged]
    exact .inl present
  · rw [completed, contents_eq]
    by_cases here : id = other
    · subst here
      cases present.symm.trans at_other
      rw [Function.update_self, item_eq]
      exact .inr ⟨⟨rfl, same_id.symm⟩, rfl⟩
    · rw [Function.update_of_ne here]
      exact .inl present

theorem entry_completeWrite (present : store.contents id = some stored) (claim : RetainedClaim)
    (result : Except AureliaError Unit) :
    (store.completeWrite claim result).2.contents id = some stored ∨
      ((stored.item.isTracked = false ∧ claim.slot = id ∧ result = .ok ()) ∧
        (store.completeWrite claim result).2.contents id = none) := by
  obtain ⟨_, _, same | ⟨_, succeeded, at_claim, response, contents_eq⟩⟩ :=
    completeWrite_cases inv claim result
  · exact .inl (same ▸ present)
  · rw [contents_eq]
    by_cases here : id = claim.slot
    · subst here
      cases present.symm.trans at_claim
      rw [Function.update_self]
      exact .inr ⟨⟨response, rfl, succeeded⟩, rfl⟩
    · rw [Function.update_of_ne here]
      exact .inl present

theorem entry_expireDue (present : store.contents id = some stored) (now : Instant) :
    (store.expireDue now).2.contents id = some stored ∨
      (stored.deadline ≤ now ∧ (store.expireDue now).2.contents id = none) := by
  have remaining := (expireDue_spec inv now).2.2 id
  by_cases due : stored.deadline ≤ now
  · apply Or.inr
    refine ⟨due, ?_⟩
    by_contra remains
    obtain ⟨held, at_id⟩ := Option.ne_none_iff_exists'.mp remains
    obtain ⟨before, pending⟩ := (remaining held).mp at_id
    cases present.symm.trans before
    exact absurd due (not_le.mpr pending)
  · exact .inl ((remaining stored).mpr ⟨present, not_le.mp due⟩)

theorem entry_of_step_of_not_inserted {label : Op × Output} (taken : system.Step store label next)
    (present : store.contents id = some stored) (inserts : label.1.inserted = none) :
    next.contents id = some stored ∨
      (label.1.Removes id stored ∧ next.contents id = none) := by
  obtain ⟨op, _⟩ := label
  have ordered := taken.1
  obtain rfl : ((Except.toOption (step store op)).map Prod.snd).getD store = next := by
    rw [show step store op = _ from taken.2]
    rfl
  cases op with
  | insertAck | insertError | insertTracked => cases inserts
  | setCapacities capacities now => exact .inl ((setCapacities_spec inv capacities now).2 ▸ present)
  | setShutdown => exact .inl ((setShutdown_spec inv).2 ▸ present)
  | claimNext callisId =>
    exact .inl ((claimLanes_spec callisId [.a1Ack, .a1Error, .a2, .a3] inv).2 ▸ present)
  | completeWrite claim result => exact entry_completeWrite inv present claim result
  | ack peerMsgId => exact entry_completeOne inv present peerMsgId (.ok ())
  | failOne peerMsgId error => exact entry_completeOne inv present peerMsgId (.error error)
  | failAll error order =>
    exact entry_removeSlots inv present (isTracked_of_tracked_order inv present ordered)
  | failNonA1 error order =>
    apply entry_removeSlots inv present
    intro listed
    exact isTracked_of_tracked_order inv present ordered (List.mem_filter.mp listed).1
  | markCallisReplayReady callisId =>
    exact .inl ((markCallisReplayReady_spec inv callisId).2 ▸ present)
  | markAllTrackedReplayReady order =>
    exact .inl ((markSlotsReplayReady_spec order inv).2 ▸ present)
  | markTrackedReplayReady peerMsgIds =>
    exact .inl ((markSlotsReplayReady_spec _ inv).2 ▸ present)
  | expireDue now => exact entry_expireDue inv present now
  | nextDeadline => exact .inl (nextDeadline_contents store ▸ present)
  | beginShutdown error order =>
    obtain ⟨down_inv, same⟩ := setShutdown_spec inv
    have kept : store.setShutdown.contents id = some stored := same ▸ present
    apply entry_removeSlots down_inv kept
    intro listed
    exact isTracked_of_tracked_order down_inv kept ordered (List.mem_filter.mp listed).1
  | dropResponses order =>
    exact entry_removeSlots inv present (isTracked_of_responses_order inv present ordered)

theorem entry_of_step {label : Op × Output} (taken : system.Step store label next)
    (present : store.contents id = some stored) :
    next.contents id = some stored ∨
      (label.1.Removes id stored ∧ next.contents id = none) := by
  cases inserts : label.1.inserted with
  | none => exact entry_of_step_of_not_inserted inv taken present inserts
  | some item =>
    apply Or.inl
    rcases insertion_cases inv inserts taken.2 with
      ⟨same, _⟩ | ⟨_, _, _, vacant, contents_eq, _⟩
    · exact same ▸ present
    · rw [contents_eq, Function.update_of_ne]
      · exact present
      · rintro rfl
        cases present.symm.trans vacant

end Entry

end AureliaPeering.Store
