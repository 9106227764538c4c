import Mathlib.Data.List.Perm.Basic
import AureliaPeering.Lib.Slots
import AureliaPeering.Store.Dispatch

/-!
The representation invariant of one lane, and its preservation by the lane operations.

Abstractly a lane is the partial map `entry` from indices to what is stored there.  Every
operation is described by its effect on that map; the invariant is what makes the slab, the free
list and the two queues represent it.
-/

namespace AureliaPeering.Store

open List

/-- What an occupied slot holds, apart from its dispatch state. -/
structure Entry where
  item : RetainedItem
  deadline : Instant
  seq : Nat
deriving DecidableEq

def RetainedSlot.entry (slot : RetainedSlot) : Option Entry :=
  slot.item.map fun item => ⟨item, slot.originalDeadline, slot.seq⟩

/-- The kind of item a lane is for. -/
def RetainedLane.kind : RetainedLane → ItemKind
  | .a1Ack => .ack
  | .a1Error => .error
  | .a2 | .a3 => .tracked

/-- The states of an item that has been written and is kept for its acknowledgement. -/
def SlotState.retained : SlotState → Bool
  | .replayReady _ | .inflight _ => true
  | _ => false

/-- A slot holds an item exactly when it is not empty, the item belongs in the lane, and only
tracked items are kept after a write. -/
structure SlotInvariant (lane : RetainedLane) (slot : RetainedSlot) : Prop where
  item_isSome_iff : slot.item.isSome ↔ slot.state ≠ .empty
  placed : ∀ item, slot.item = some item → item.kind = lane.kind
  retained : slot.state.retained = true → lane.kind = .tracked

theorem RetainedSlot.empty_slotInvariant (lane : RetainedLane) (now : Instant) :
    SlotInvariant lane (RetainedSlot.empty now) where
  item_isSome_iff := by simp [RetainedSlot.empty]
  placed := by simp [RetainedSlot.empty]
  retained := by simp [RetainedSlot.empty, SlotState.retained]

namespace LaneState

def entry (state : LaneState) (index : Nat) : Option Entry :=
  state.slots[index]?.bind RetainedSlot.entry

def occupied (slots : List RetainedSlot) : Nat :=
  slots.countP fun slot => decide (slot.state ≠ .empty)

/-- The representation invariant of a lane. -/
structure Invariant (lane : RetainedLane) (state : LaneState) : Prop where
  name : state.lane = lane
  slot : ∀ slot ∈ state.slots, SlotInvariant lane slot
  free_nodup : state.free.Nodup
  mem_free_iff : ∀ index, index ∈ state.free ↔
    ∃ slot, state.slots[index]? = some slot ∧ slot.state = .empty
  liveCount_eq : state.liveCount = occupied state.slots
  target_le : state.targetCapacity ≤ state.slots.length
  queued : ∀ replay index slot, state.slots[index]? = some slot → slot.state.claimable replay →
    ⟨index, slot.seq⟩ ∈ state.queue replay
  inRange : ∀ replay, ∀ key ∈ state.queue replay, key.index < state.slots.length

variable {lane : RetainedLane} {next state : LaneState} {index : Nat} {old slot : RetainedSlot}
  {slots : List RetainedSlot}

section Frames

variable (state) (replay : Bool) (queue : List QueueKey)

@[simp]
theorem queue_setQueue (other : Bool) :
    (state.setQueue replay queue).queue other =
      if other = replay then queue else state.queue other := by
  cases replay <;> cases other <;> rfl

@[simp]
theorem slots_setQueue : (state.setQueue replay queue).slots = state.slots := by
  cases replay <;> rfl

@[simp]
theorem free_setQueue : (state.setQueue replay queue).free = state.free := by
  cases replay <;> rfl

@[simp]
theorem liveCount_setQueue : (state.setQueue replay queue).liveCount = state.liveCount := by
  cases replay <;> rfl

@[simp]
theorem targetCapacity_setQueue :
    (state.setQueue replay queue).targetCapacity = state.targetCapacity := by
  cases replay <;> rfl

@[simp]
theorem lane_setQueue : (state.setQueue replay queue).lane = state.lane := by
  cases replay <;> rfl

end Frames

theorem entry_eq_some_iff (state : LaneState) (index : Nat) (stored : Entry) :
    state.entry index = some stored ↔
      ∃ slot, state.slots[index]? = some slot ∧ slot.entry = some stored := by
  simp [entry, Option.bind_eq_some_iff]

theorem Invariant.slot_of_getElem? (inv : state.Invariant lane)
    (found : state.slots[index]? = some slot) : SlotInvariant lane slot :=
  inv.slot slot (mem_of_getElem? found)

theorem getElem?_set_of_found
    (found : slots[index]? = some old) (new : RetainedSlot) (other : Nat) :
    (slots.set index new)[other]? = if other = index then some new else slots[other]? := by
  have bound : index < slots.length := (List.getElem?_eq_some_iff.mp found).1
  by_cases same : other = index
  · subst same
    simp [bound]
  · simp [same, getElem?_set_ne (Ne.symm same)]

theorem occupied_set (found : slots[index]? = some old) (new : RetainedSlot) :
    occupied (slots.set index new) + (if old.state = .empty then 0 else 1) =
      occupied slots + (if new.state = .empty then 0 else 1) := by
  obtain ⟨bound, same⟩ := List.getElem?_eq_some_iff.mp found
  have removed := (getElem_cons_eraseIdx_perm bound).countP_eq
    fun slot : RetainedSlot => decide (slot.state ≠ .empty)
  have added := (set_perm_cons_eraseIdx bound new).countP_eq
    fun slot : RetainedSlot => decide (slot.state ≠ .empty)
  rw [same, countP_cons] at removed
  rw [countP_cons] at added
  unfold occupied
  rw [added, ← removed]
  by_cases oldEmpty : old.state = .empty <;> by_cases newEmpty : new.state = .empty <;>
    simp [oldEmpty, newEmpty]

theorem Invariant.of_set (inv : state.Invariant lane) (found : state.slots[index]? = some old)
    (new : RetainedSlot) (sane : SlotInvariant lane new) (name_eq : next.lane = state.lane)
    (slots_eq : next.slots = state.slots.set index new)
    (target_eq : next.targetCapacity = state.targetCapacity)
    (free_nodup : next.free.Nodup)
    (mem_free : ∀ other, other ∈ next.free ↔
      if other = index then new.state = .empty else other ∈ state.free)
    (live_eq : next.liveCount = occupied (state.slots.set index new))
    (own : ∀ replay, new.state.claimable replay → ⟨index, new.seq⟩ ∈ next.queue replay)
    (others : ∀ replay other slot, other ≠ index → state.slots[other]? = some slot →
      slot.state.claimable replay → ⟨other, slot.seq⟩ ∈ next.queue replay)
    (range : ∀ replay, ∀ key ∈ next.queue replay, key.index = index ∨ key ∈ state.queue replay) :
    next.Invariant lane where
  name := name_eq.trans inv.name
  slot := by
    intro slot membership
    rw [slots_eq] at membership
    rcases mem_or_eq_of_mem_set membership with kept | fresh
    · exact inv.slot slot kept
    · exact fresh ▸ sane
  free_nodup := free_nodup
  mem_free_iff := by
    intro other
    rw [mem_free, slots_eq]
    by_cases same : other = index
    · simp [same, getElem?_set_of_found found]
    · simpa [same, getElem?_set_of_found found] using inv.mem_free_iff other
  liveCount_eq := by rw [live_eq, slots_eq]
  target_le := by
    rw [target_eq, slots_eq, length_set]
    exact inv.target_le
  queued := by
    intro replay other slot at_other claimable
    rw [slots_eq, getElem?_set_of_found found] at at_other
    by_cases same : other = index
    · rw [if_pos same, Option.some.injEq] at at_other
      subst at_other
      exact same ▸ own replay claimable
    · rw [if_neg same] at at_other
      exact others replay other slot same at_other claimable
  inRange := by
    intro replay key membership
    rw [slots_eq, length_set]
    rcases range replay key membership with here | kept
    · exact here ▸ (List.getElem?_eq_some_iff.mp found).1
    · exact inv.inRange replay key kept

theorem entry_of_set (found : state.slots[index]? = some old) (new : RetainedSlot)
    (slots_eq : next.slots = state.slots.set index new) :
    next.entry = Function.update state.entry index new.entry := by
  funext other
  rw [entry, slots_eq, getElem?_set_of_found found]
  by_cases same : other = index
  · subst same
    simp
  · simp [same, entry]

theorem new_invariant (lane : RetainedLane) (targetCapacity : Nat) (now : Instant) :
    (new lane targetCapacity now).Invariant lane where
  name := rfl
  slot := by
    intro slot membership
    rw [eq_of_mem_replicate membership]
    exact RetainedSlot.empty_slotInvariant lane now
  free_nodup := nodup_range
  mem_free_iff := by
    intro index
    simp [new, getElem?_replicate, RetainedSlot.empty]
  liveCount_eq := by simp [new, occupied, countP_replicate, RetainedSlot.empty]
  target_le := by simp [new]
  queued := by
    intro replay index slot found claimable
    simp only [new, getElem?_replicate, Option.ite_none_right_eq_some,
      Option.some.injEq] at found
    rw [← found.2] at claimable
    simp [RetainedSlot.empty, SlotState.claimable] at claimable
  inRange := by
    intro replay key membership
    cases replay <;> simp [new, queue] at membership

@[simp]
theorem new_entry (lane : RetainedLane) (targetCapacity : Nat) (now : Instant) (index : Nat) :
    (new lane targetCapacity now).entry index = none := by
  simp only [entry, new, getElem?_replicate]
  split <;> simp [RetainedSlot.entry, RetainedSlot.empty]

theorem Invariant.push_empty (inv : state.Invariant lane) (now : Instant) :
    LaneState.Invariant lane { state with
      slots := state.slots ++ [RetainedSlot.empty now]
      free := state.slots.length :: state.free } where
  name := inv.name
  slot := by
    intro slot membership
    rcases mem_append.mp membership with kept | fresh
    · exact inv.slot slot kept
    · rw [mem_singleton.mp fresh]
      exact RetainedSlot.empty_slotInvariant lane now
  free_nodup := by
    refine nodup_cons.mpr ⟨fun listed => ?_, inv.free_nodup⟩
    obtain ⟨slot, found, _⟩ := (inv.mem_free_iff _).mp listed
    simp at found
  mem_free_iff := by
    intro index
    simp only [mem_cons, inv.mem_free_iff, Slots.getElem?_concat_eq_some, or_and_right,
      exists_or]
    rw [or_comm]
    apply or_congr_right
    constructor
    · intro same
      exact ⟨RetainedSlot.empty now, ⟨same, rfl⟩, rfl⟩
    · rintro ⟨slot, ⟨same, _⟩, _⟩
      exact same
  liveCount_eq := by
    have live := inv.liveCount_eq
    simpa [occupied, RetainedSlot.empty] using live
  target_le := by
    have bound := inv.target_le
    simp only [length_append, length_singleton]
    omega
  queued := by
    intro replay index slot found claimable
    rcases Slots.getElem?_concat_eq_some.mp found with kept | ⟨_, fresh⟩
    · exact inv.queued replay index slot kept claimable
    · rw [← fresh] at claimable
      simp [RetainedSlot.empty, SlotState.claimable] at claimable
  inRange := by
    intro replay key membership
    have bound := inv.inRange replay key membership
    simp only [length_append, length_singleton]
    omega

theorem push_empty_entry (state : LaneState) (now : Instant) (free : List Nat) (index : Nat) :
    LaneState.entry { state with
      slots := state.slots ++ [RetainedSlot.empty now]
      free := free } index = state.entry index := by
  apply Option.ext
  intro stored
  simp only [entry_eq_some_iff, Slots.getElem?_concat_eq_some, or_and_right, exists_or]
  refine or_iff_left ?_
  rintro ⟨_, ⟨_, fresh⟩, stored_eq⟩
  rw [← fresh] at stored_eq
  simp [RetainedSlot.entry, RetainedSlot.empty] at stored_eq

theorem grow_invariant (now : Instant) (count : Nat)
    (inv : state.Invariant lane) : (grow now count state).Invariant lane := by
  induction count generalizing state with
  | zero => exact inv
  | succ count ih => exact ih (inv.push_empty now)

theorem grow_entry (now : Instant) (count : Nat) (state : LaneState) (index : Nat) :
    (grow now count state).entry index = state.entry index := by
  induction count generalizing state with
  | zero => rfl
  | succ count ih =>
    rw [grow, ih, push_empty_entry]

theorem grow_eq (now : Instant) (count : Nat) (state : LaneState) :
    grow now count state = { state with
      slots := state.slots ++ replicate count (RetainedSlot.empty now)
      free := (grow now count state).free } := by
  induction count generalizing state with
  | zero => simp [grow]
  | succ count ih =>
    rw [grow, ih]
    simp [replicate_succ]

theorem grow_length (now : Instant) (count : Nat) (state : LaneState) :
    (grow now count state).slots.length = state.slots.length + count := by
  rw [grow_eq]
  simp

theorem setTargetCapacity_ready (state : LaneState) (targetCapacity : Nat) (now : Instant) :
    (state.setTargetCapacity targetCapacity now).ready = state.ready := by
  dsimp only [setTargetCapacity]
  rw [grow_eq]

theorem setTargetCapacity_replay (state : LaneState) (targetCapacity : Nat) (now : Instant) :
    (state.setTargetCapacity targetCapacity now).replay = state.replay := by
  dsimp only [setTargetCapacity]
  rw [grow_eq]

theorem setTargetCapacity_invariant
    (inv : state.Invariant lane) (targetCapacity : Nat) (now : Instant) :
    (state.setTargetCapacity targetCapacity now).Invariant lane := by
  have grown := grow_invariant now (max targetCapacity 1 - state.slots.length) inv
  have length := grow_length now (max targetCapacity 1 - state.slots.length) state
  exact { grown with
    target_le := by
      simp only [setTargetCapacity]
      omega }

end LaneState

end AureliaPeering.Store
