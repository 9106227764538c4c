import AureliaPeering.Store.Steps

/-!
Claiming makes progress: as long as an open lane holds a claimable item, `claim_next` returns a
claim, and repeating it reaches every such item.
-/

namespace AureliaPeering.Store

namespace LaneState
variable {slots : List RetainedSlot} {replay : Bool} {keys queue : List QueueKey}

theorem scanQueue_length_le {result : Option (QueueKey × RetainedSlot)}
    (scan : scanQueue slots replay keys = (queue, result)) :
    queue.length + (if result.isSome then 1 else 0) ≤ keys.length := by
  obtain ⟨dropped, _, ⟨_, rfl, rfl⟩ | ⟨key, rfl, _⟩⟩ := scanQueue_cases scan
  · exact Nat.zero_le _
  · rw [List.length_append, List.length_cons]
    split <;> omega

theorem scanQueue_none (inRange : ∀ key ∈ keys, key.index < slots.length)
    (scan : scanQueue slots replay keys = (queue, none)) : queue = [] := by
  obtain ⟨dropped, _, ⟨_, ended, _⟩ | ⟨key, rfl, ⟨missing, _⟩ | ⟨_, _, _, same⟩⟩⟩ :=
    scanQueue_cases scan
  · exact ended
  · have bound := inRange key (by simp)
    simp [bound] at missing
  · cases same

def load (state : LaneState) : Nat := state.ready.length + state.replay.length

theorem load_setQueue (state : LaneState) (replay : Bool) (queue : List QueueKey) :
    (state.setQueue replay queue).load + (state.queue replay).length =
      state.load + queue.length := by
  cases replay <;> simp [load, setQueue, LaneState.queue] <;> omega

end LaneState

namespace RetainedStore

def load (store : RetainedStore) : Nat :=
  store.a1Ack.load + store.a1Error.load + store.a2.load + store.a3.load

variable {middle next store : RetainedStore} {result : Option RetainedClaim} {callisId : CallisId}
  {id : SlotId} {slot : RetainedSlot} {replay : Bool}

theorem load_setLane (store : RetainedStore) (lane : RetainedLane) (state : LaneState) :
    (store.setLane lane state).load + (store.lane lane).load = store.load + state.load := by
  cases lane <;> simp only [load, setLane, lane] <;> omega

theorem slot_setLane (store : RetainedStore) (lane : RetainedLane) (state : LaneState)
    (id : SlotId) : (store.setLane lane state).slot id =
      if id.lane = lane then state.slots[id.index]? else store.slot id := by
  unfold slot
  rw [lane_setLane]
  split <;> rfl

/-- What an attempt to claim leaves as it was: without a result every slot, with a result every
slot but the claimed one, and in both cases the queues have become shorter by what was popped. -/
def ClaimFrame (store next : RetainedStore) : Option RetainedClaim → Prop
  | none => next.shutdown = store.shutdown ∧ (∀ id, next.slot id = store.slot id) ∧
      next.load ≤ store.load
  | some claim => next.shutdown = store.shutdown ∧
      (∃ slot, store.slot claim.slot = some slot ∧ slot.identity = some claim.identity) ∧
      (∀ id, id ≠ claim.slot → next.slot id = store.slot id) ∧ next.load < store.load

theorem ClaimFrame.trans
    (missed : ClaimFrame store middle none) (attempt : ClaimFrame middle next result) :
    ClaimFrame store next result := by
  obtain ⟨same_shutdown, same_slots, shorter⟩ := missed
  cases result with
  | none =>
    obtain ⟨next_shutdown, next_slots, next_shorter⟩ := attempt
    exact ⟨next_shutdown.trans same_shutdown, fun id => (next_slots id).trans (same_slots id),
      next_shorter.trans shorter⟩
  | some claim =>
    obtain ⟨next_shutdown, ⟨slot, found, identity⟩, next_slots, next_shorter⟩ := attempt
    exact ⟨next_shutdown.trans same_shutdown, ⟨slot, same_slots claim.slot ▸ found, identity⟩,
      fun id other => (next_slots id other).trans (same_slots id),
      next_shorter.trans_le shorter⟩

theorem claimFromQueue_frame (inv : store.Invariant) (lane : RetainedLane)
    (replay : Bool) (callisId : CallisId) :
    ClaimFrame store (store.claimFromQueue lane replay callisId).2
      (store.claimFromQueue lane replay callisId).1 := by
  rcases claimFromQueue_cases inv lane replay callisId with
    ⟨queue, scan, result⟩ | ⟨queue, key, slot, _, scan, item_eq, result⟩
  · have length := LaneState.scanQueue_length_le scan
    have lane_load := LaneState.load_setQueue (store.lane lane) replay queue
    have store_load := load_setLane store lane ((store.lane lane).setQueue replay queue)
    rw [result]
    dsimp only [ClaimFrame]
    refine ⟨by simp, fun id => ?_, ?_⟩
    · rw [slot_setLane]
      split
      · next same => simp [slot, same]
      · rfl
    · simp only [Option.isSome_none, Bool.false_eq_true, if_false] at length
      omega
  · obtain ⟨found, _⟩ := LaneState.scanQueue_found scan
    have length := LaneState.scanQueue_length_le scan
    have lane_load := LaneState.load_setQueue (store.lane lane) replay queue
    have store_load := load_setLane store lane (((store.lane lane).setQueue replay queue).setSlot
      key.index { slot with state := .writing callisId })
    rw [result]
    dsimp only [ClaimFrame]
    refine ⟨by simp, ⟨slot, found, by simp [RetainedSlot.identity, item_eq, claimOf]⟩,
      fun id other => ?_, ?_⟩
    · rw [slot_setLane]
      split
      · next same =>
          have position : id.index ≠ key.index := by
            intro same_index
            exact other (by cases id; simp_all [claimOf])
          simp [LaneState.setSlot, RetainedStore.slot, same,
            List.getElem?_set_ne (Ne.symm position)]
      · rfl
    · change _ = store.load + ((store.lane lane).setQueue replay queue).load at store_load
      simp only [Option.isSome_some, if_true] at length
      omega

/-- What an attempt to claim does to the slots: the claimed one is being written, and the claim
describes what it holds. -/
def Claimed (callisId : CallisId) (store next : RetainedStore) : Option RetainedClaim → Prop
  | none => ∀ id, next.slot id = store.slot id
  | some claim => ∃ slot item replay, store.slot claim.slot = some slot ∧ slot.item = some item ∧
      slot.state.claimable replay = true ∧ claim = claimOf claim.slot slot item callisId ∧
      ∀ id, next.slot id =
        if id = claim.slot then some { slot with state := .writing callisId } else store.slot id

theorem Claimed.trans (missed : Claimed callisId store middle none)
    (attempt : Claimed callisId middle next result) : Claimed callisId store next result := by
  cases result with
  | none => exact fun id => (attempt id).trans (missed id)
  | some claim =>
    obtain ⟨slot, item, replay, found, item_eq, claimable, claim_eq, slots⟩ := attempt
    refine ⟨slot, item, replay, (missed _).symm.trans found, item_eq, claimable, claim_eq, ?_⟩
    intro id
    rw [slots, missed]

theorem claimFromQueue_claimed (inv : store.Invariant)
    (lane : RetainedLane) (replay : Bool) (callisId : CallisId) :
    Claimed callisId store (store.claimFromQueue lane replay callisId).2
      (store.claimFromQueue lane replay callisId).1 := by
  rcases claimFromQueue_cases inv lane replay callisId with
    ⟨queue, scan, result⟩ | ⟨queue, _, slot, item, scan, item_eq, result⟩
  · rw [result]
    intro id
    rw [slot_setLane]
    split
    · rename_i same
      simp [slot, same]
    · rfl
  · obtain ⟨found, _, claimable⟩ := LaneState.scanQueue_found scan
    rw [result]
    refine ⟨slot, item, replay, found, item_eq, claimable, rfl, ?_⟩
    rintro ⟨other, _⟩
    rw [slot_setLane]
    by_cases same : other = lane
    · subst same
      simp only [LaneState.setSlot, LaneState.slots_setQueue, if_true,
        LaneState.getElem?_set_of_found found, claimOf, SlotId.mk.injEq, true_and]
      rfl
    · simp [same, claimOf]

theorem claimLane_claimed (inv : store.Invariant) (lane : RetainedLane)
    (callisId : CallisId) :
    Claimed callisId store (store.claimLane lane callisId).2
      (store.claimLane lane callisId).1 := by
  have unchanged : Claimed callisId store store none := fun _ => rfl
  unfold claimLane
  split
  · exact unchanged
  · split
    · exact claimFromQueue_claimed inv lane false callisId
    · have replayed := claimFromQueue_claimed inv lane true callisId
      split
      · rename_i claim next claimed
        rw [claimed] at replayed
        exact replayed
      · rename_i next missed
        have next_inv := (claimFromQueue_spec inv lane true callisId).1
        rw [missed] at replayed next_inv
        exact replayed.trans (claimFromQueue_claimed next_inv lane false callisId)

theorem claimLanes_claimed (callisId : CallisId) (lanes : List RetainedLane)
    (inv : store.Invariant) :
    Claimed callisId store (claimLanes callisId lanes store).2
      (claimLanes callisId lanes store).1 := by
  induction lanes generalizing store with
  | nil => exact fun _ => rfl
  | cons lane rest ih =>
    have tried := claimLane_claimed inv lane callisId
    have spec := claimLane_spec inv lane callisId
    unfold claimLanes
    split
    · rename_i claim next claimed
      rw [claimed] at tried
      exact tried
    · rename_i next missed
      rw [missed] at tried spec
      exact tried.trans (ih spec.1)

theorem claimNext_claimed (inv : store.Invariant) (callisId : CallisId) :
    Claimed callisId store (store.claimNext callisId).2 (store.claimNext callisId).1 :=
  claimLanes_claimed callisId _ inv

theorem claimFromQueue_isSome (inv : store.Invariant) (found : store.slot id = some slot)
    (claimable : slot.state.claimable replay) (callisId : CallisId) :
    (store.claimFromQueue id.lane replay callisId).1.isSome := by
  rcases claimFromQueue_cases inv id.lane replay callisId with
    ⟨_, scan, _⟩ | ⟨_, _, _, _, _, _, result⟩
  · have sane := inv.lanes id.lane
    have listed := sane.queued replay id.index slot found claimable
    have empty := LaneState.scanQueue_none (sane.inRange replay) scan
    rcases LaneState.scanQueue_kept scan listed found rfl claimable with kept | stopped
    · simp [empty] at kept
    · simp at stopped
  · simp [result]

theorem claimLane_frame (inv : store.Invariant) (lane : RetainedLane)
    (callisId : CallisId) :
    ClaimFrame store (store.claimLane lane callisId).2 (store.claimLane lane callisId).1 := by
  unfold claimLane
  split
  · exact ⟨rfl, fun _ => rfl, le_rfl⟩
  split
  · exact claimFromQueue_frame inv lane false callisId
  have replay_frame := claimFromQueue_frame inv lane true callisId
  split
  · next claim next claimed =>
      rw [claimed] at replay_frame
      exact replay_frame
  · next next missed =>
      have next_inv := (claimFromQueue_spec inv lane true callisId).1
      rw [missed] at replay_frame next_inv
      exact replay_frame.trans (claimFromQueue_frame next_inv lane false callisId)

/-- A lane whose items may be claimed: after shutdown only the response lanes are. -/
def Open (store : RetainedStore) (lane : RetainedLane) : Prop :=
  store.shutdown = false ∨ lane.isA1 = true

theorem claimLane_isSome (inv : store.Invariant) (found : store.slot id = some slot)
    (claimable : slot.state.claimable replay) (opened : store.Open id.lane) (callisId : CallisId) :
    (store.claimLane id.lane callisId).1.isSome := by
  unfold claimLane
  rw [if_neg (by rcases opened with _ | control <;> simp [*])]
  by_cases control : id.lane.isA1 = true
  · rw [if_pos control]
    have only_ready : replay = false := by
      by_contra replays
      have kind := ((inv.lanes id.lane).slot_of_getElem? found).retained
        (SlotState.retained_of_claimable (by simp_all))
      cases lane_eq : id.lane <;> simp_all [RetainedLane.isA1, RetainedLane.kind]
    subst only_ready
    exact claimFromQueue_isSome inv found claimable callisId
  · rw [if_neg control]
    split
    · rfl
    · next next missed =>
        have replay_spec := claimFromQueue_spec inv id.lane true callisId
        have replay_frame := claimFromQueue_frame inv id.lane true callisId
        rw [missed] at replay_spec replay_frame
        have still : next.slot id = some slot := (replay_frame.2.1 id).trans found
        cases replay with
        | true =>
          have replays := claimFromQueue_isSome inv found claimable callisId
          simp [missed] at replays
        | false => exact claimFromQueue_isSome replay_spec.1 still claimable callisId

theorem claimLanes_frame (callisId : CallisId) (lanes : List RetainedLane)
    (inv : store.Invariant) :
    ClaimFrame store (claimLanes callisId lanes store).2 (claimLanes callisId lanes store).1 := by
  induction lanes generalizing store with
  | nil => exact ⟨rfl, fun _ => rfl, le_rfl⟩
  | cons lane rest ih =>
    have frame := claimLane_frame inv lane callisId
    have spec := claimLane_spec inv lane callisId
    unfold claimLanes
    split
    · next claim next claimed =>
        rw [claimed] at frame
        exact frame
    · next next missed =>
        rw [missed] at frame spec
        exact frame.trans (ih spec.1)

theorem claimLanes_isSome (callisId : CallisId) {lanes : List RetainedLane}
    (inv : store.Invariant) (tried : id.lane ∈ lanes)
    (found : store.slot id = some slot) (claimable : slot.state.claimable replay)
    (opened : store.Open id.lane) : (claimLanes callisId lanes store).1.isSome := by
  induction lanes generalizing store with
  | nil => simp at tried
  | cons lane rest ih =>
    unfold claimLanes
    split
    · rfl
    · next next missed =>
        have frame := claimLane_frame inv lane callisId
        have spec := claimLane_spec inv lane callisId
        rw [missed] at frame spec
        obtain ⟨same_shutdown, same_slots, _⟩ := frame
        rcases List.mem_cons.mp tried with here | later
        · have claimed := claimLane_isSome inv found claimable opened callisId
          rw [here, missed] at claimed
          simp at claimed
        · exact ih spec.1 later ((same_slots id).trans found)
            (opened.imp_left fun up => same_shutdown.trans up)

/-- `claim_next` finds work whenever an open lane holds a claimable item. -/
theorem claimNext_isSome (inv : store.Invariant) (found : store.slot id = some slot)
    (claimable : slot.state.claimable replay) (opened : store.Open id.lane) (callisId : CallisId) :
    (store.claimNext callisId).1.isSome := by
  refine claimLanes_isSome callisId inv ?_ found claimable opened
  cases id.lane <;> simp

/-- The claims of repeated calls of `claim_next`. -/
def claims (callisId : CallisId) : Nat → RetainedStore → List RetainedClaim
  | 0, _ => []
  | count + 1, store =>
    match store.claimNext callisId with
    | (none, _) => []
    | (some claim, next) => claim :: claims callisId count next

theorem claimable_of_mem_claims (inv : store.Invariant) {count : Nat} {claim : RetainedClaim}
    (listed : claim ∈ claims callisId count store) :
    ∃ slot replay, store.slot claim.slot = some slot ∧ slot.state.claimable replay = true := by
  induction count generalizing store with
  | zero => cases listed
  | succ count ih =>
    have first := claimNext_claimed inv callisId
    have spec := claimLanes_spec callisId [.a1Ack, .a1Error, .a2, .a3] inv
    change (store.claimNext callisId).2.Invariant ∧ _ at spec
    unfold claims at listed
    split at listed
    · cases listed
    · rename_i taken next claimed
      rw [claimed] at first spec
      obtain ⟨slot, item, replay, found, _, claimable, _, slots⟩ := first
      rcases List.mem_cons.mp listed with rfl | later
      · exact ⟨slot, replay, found, claimable⟩
      · obtain ⟨held, other, at_held, again⟩ := ih spec.1 later
        rw [slots] at at_held
        split at at_held
        · cases at_held
          simp at again
        · exact ⟨held, other, at_held, again⟩

/-- Repeated claiming reaches every claimable item of an open lane.  Each claim shortens the
queues and leaves the item where it is unless it is the one claimed. -/
theorem exists_claim (inv : store.Invariant) (found : store.slot id = some slot)
    (claimable : slot.state.claimable replay) (opened : store.Open id.lane) (callisId : CallisId) :
    ∃ count, ∃ claim ∈ claims callisId count store,
      claim.slot = id ∧ slot.identity = some claim.identity := by
  induction bound : store.load using Nat.strong_induction_on generalizing store with
  | _ size ih =>
    have some_claim := claimNext_isSome inv found claimable opened callisId
    have frame := claimLanes_frame callisId [.a1Ack, .a1Error, .a2, .a3] inv
    have spec := claimLanes_spec callisId [.a1Ack, .a1Error, .a2, .a3] inv
    change ClaimFrame store (store.claimNext callisId).2 (store.claimNext callisId).1 at frame
    change (store.claimNext callisId).2.Invariant ∧ _ at spec
    rcases claimed : store.claimNext callisId with ⟨_ | claim, next⟩
    · simp [claimed] at some_claim
    rw [claimed] at frame spec
    obtain ⟨same_shutdown, ⟨_, at_claim, identity⟩, same_slots, shorter⟩ := frame
    by_cases here : id = claim.slot
    · rw [← here, found, Option.some.injEq] at at_claim
      exact ⟨1, claim, by simp [claims, claimed], here.symm, at_claim ▸ identity⟩
    · obtain ⟨count, later, listed, same, same_identity⟩ :=
        ih next.load (bound ▸ shorter) spec.1 ((same_slots id here).trans found)
          (opened.imp_left fun up => same_shutdown.trans up) rfl
      exact ⟨count + 1, later, by simp [claims, claimed, listed], same, same_identity⟩

end RetainedStore

end AureliaPeering.Store
