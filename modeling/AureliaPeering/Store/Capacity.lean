import AureliaPeering.Store.Retention
import AureliaPeering.Store.SlotFrames

/-!
Capacities of the lanes.

A new capacity moves the target of a lane and adds vacant slots; what the lane holds stays where it
is.  A lane accepts an item exactly while it holds fewer items than its target.
-/

namespace AureliaPeering.Store

open Collections RetainedStore

def RetainedCapacities.lane (capacities : RetainedCapacities) : RetainedLane → Nat
  | .a1Ack => capacities.a1Ack
  | .a1Error => capacities.a1Error
  | .a2 => capacities.a2
  | .a3 => capacities.a3

/-- The row of slots is continued by vacant ones; the queues and the count of items stay. -/
structure LaneState.Resized (state next : LaneState) (capacity : Nat) : Prop where
  slots : ∃ added, next.slots = state.slots ++ added ∧ ∀ slot ∈ added, slot.Vacant
  ready : next.ready = state.ready
  replay : next.replay = state.replay
  liveCount : next.liveCount = state.liveCount
  targetCapacity : next.targetCapacity = max capacity 1

theorem LaneState.setTargetCapacity_resized (state : LaneState) (capacity : Nat) (now : Instant) :
    state.Resized (state.setTargetCapacity capacity now) capacity := by
  constructor
  · refine ⟨List.replicate (max capacity 1 - state.slots.length) (RetainedSlot.empty now), ?_, ?_⟩
    · dsimp only [setTargetCapacity]
      rw [grow_eq]
    · intro slot added
      rw [List.eq_of_mem_replicate added]
      exact ⟨rfl, rfl⟩
  · exact setTargetCapacity_ready state capacity now
  · exact setTargetCapacity_replay state capacity now
  · dsimp only [setTargetCapacity]
    rw [grow_eq]
  · rfl

def LaneState.held (state : LaneState) : Nat := state.slots.countP fun slot => slot.item.isSome

theorem LaneState.Invariant.liveCount_eq_held {state : LaneState} {lane : RetainedLane}
    (inv : state.Invariant lane) : state.liveCount = state.held := by
  rw [inv.liveCount_eq]
  apply List.countP_congr
  intro slot listed
  obtain ⟨_, found⟩ := List.mem_iff_getElem?.mp listed
  rw [decide_eq_true_eq, (inv.slot_of_getElem? found).item_isSome_iff]

/-- An entry over a whole run: it is as it was, or it was so until a step vacated its slot. -/
theorem entry_of_run {store final : RetainedStore} {labels : List (Op × Output)}
    (inv : store.Invariant) (run : system.Run store labels final) {id : SlotId} {stored : Entry}
    (present : store.contents id = some stored) :
    final.contents id = some stored ∨
      ∃ before label after middle next, labels = before ++ label :: after ∧
        system.Run store before middle ∧ middle.contents id = some stored ∧
        system.Step middle label next ∧ label.1.Removes id stored ∧ next.contents id = none ∧
        system.Run next after final := by
  induction run with
  | nil => exact .inl present
  | @snoc middle final labels label run taken ih =>
    rcases ih with
      kept | ⟨before, removal, after, at_removal, vacated, labels_eq, first, held, removed, removes,
        gone, rest⟩
    · rcases entry_of_step (run_invariant inv run) taken kept with still | ⟨removes, gone⟩
      · exact .inl still
      · exact .inr ⟨labels, label, [], middle, final, rfl, run, kept, taken, removes, gone,
          .nil final⟩
    · apply Or.inr
      refine ⟨before, removal, after ++ [label], at_removal, vacated, ?_, first, held, removed,
        removes, gone, rest.snoc taken⟩
      rw [labels_eq, List.append_assoc, List.cons_append]

def Accepts (store : RetainedStore) (lane : RetainedLane) (op : Op) : Prop :=
  ∃ output next index stored, step store op = .ok (output, next) ∧ output.accepted = true ∧
    op.inserted = some stored.item ∧ store.contents ⟨lane, index⟩ = none ∧
    next.contents = Function.update store.contents ⟨lane, index⟩ (some stored)

def Refuses (store : RetainedStore) (op : Op) : Prop :=
  ∃ output next, step store op = .ok (output, next) ∧ output.accepted = false ∧
    next.contents = store.contents

section Room

variable {store : RetainedStore} {lane : RetainedLane} {op : Op}

theorem inserted_of_admissible (inv : store.Invariant) (admissible : op.Admissible store lane) :
    ∃ item output next, op.inserted = some item ∧ step store op = .ok (output, next) := by
  have spec := step_spec inv op
  cases op with
  | insertAck | insertError | insertTracked =>
    obtain ⟨output, next, performed, _⟩ := spec trivial
    exact ⟨_, output, next, rfl, performed⟩
  | _ => exact admissible.elim

theorem accepts_of_room (inv : store.Invariant) (admissible : op.Admissible store lane)
    (room : (store.lane lane).available = true) : Accepts store lane op := by
  obtain ⟨item, output, next, inserts, performed⟩ := inserted_of_admissible inv admissible
  rcases insertion_cases inv inserts performed with
    ⟨_, _, _, full⟩ | ⟨⟨_, index⟩, _, _, vacant, contents_eq, _, accepted, isLane⟩
  · cases (full lane admissible).symm.trans room
  · cases Option.some.inj (isLane.symm.trans admissible.lane_eq)
    exact ⟨output, next, index, _, performed, accepted, inserts, vacant, contents_eq⟩

theorem refuses_of_full (inv : store.Invariant) (admissible : op.Admissible store lane)
    (full : (store.lane lane).available = false) : Refuses store op := by
  obtain ⟨item, output, next, inserts, performed⟩ := inserted_of_admissible inv admissible
  rcases insertion_cases inv inserts performed with
    ⟨same, _, refused, _⟩ | ⟨_, _, _, _, _, placed, _, isLane⟩
  · exact ⟨output, next, performed, refused, same⟩
  · have room := placed.room
    rw [Option.some.inj (isLane.symm.trans admissible.lane_eq), full] at room
    cases room

end Room

section Insertion

variable {store next : RetainedStore}
variable {lane : RetainedLane}

theorem present_of_full {label : Op × Output} (inv : store.Invariant)
    (taken : system.Step store label next)
    (full : (store.lane lane).available = false) {index : Nat} {stored : Entry}
    (present : next.contents ⟨lane, index⟩ = some stored) :
    store.contents ⟨lane, index⟩ = some stored := by
  rcases (step_invariant inv taken).2.of_present present with before | inserted
  · exact before
  · rcases insertion_cases inv inserted taken.2 with
      ⟨same, _⟩ | ⟨id, _, _, _, contents_eq, placed, _⟩
    · exact same ▸ present
    · rw [contents_eq, Function.update_apply] at present
      split at present
      · rename_i here
        cases here
        cases full.symm.trans placed.room
      · exact present

end Insertion

/-- In every reachable state: an entry stays as it is in its slot until one step of the run removes
it; new capacities add vacant slots and move nothing; a lane that holds its target or more takes no
new item, whatever the operation, and one that holds less takes any item that is not refused for
another reason. -/
theorem retained_immutable {store : RetainedStore} (reached : system.Reachable store) :
    (∀ labels final, system.Run store labels final → ∀ id stored,
      store.contents id = some stored → final.contents id = some stored ∨
        ∃ before label after middle next, labels = before ++ label :: after ∧
          system.Run store before middle ∧ middle.contents id = some stored ∧
          system.Step middle label next ∧ label.1.Removes id stored ∧ next.contents id = none ∧
          system.Run next after final) ∧
    (∀ capacities now lane, (store.lane lane).Resized
      ((store.setCapacities capacities now).lane lane) (capacities.lane lane)) ∧
    (∀ lane, (store.lane lane).targetCapacity ≤ (store.lane lane).held →
      (∀ label next, system.Step store label next → ∀ index stored,
        next.contents ⟨lane, index⟩ = some stored → store.contents ⟨lane, index⟩ = some stored) ∧
      ∀ op, op.Admissible store lane → Refuses store op) ∧
    (∀ lane, (store.lane lane).held < (store.lane lane).targetCapacity →
      ∀ op, op.Admissible store lane → Accepts store lane op) := by
  have inv := reachable_invariant reached
  have room (lane : RetainedLane) : (store.lane lane).available =
      decide ((store.lane lane).held < (store.lane lane).targetCapacity) := by
    rw [← (inv.lanes lane).liveCount_eq_held]
    rfl
  refine ⟨fun labels final run id stored => entry_of_run inv run,
    fun capacities now lane => ?_, fun lane reachedTarget => ?_, fun lane below op admissible => ?_⟩
  · cases lane <;> exact LaneState.setTargetCapacity_resized ..
  · have full : (store.lane lane).available = false := by
      rw [room, decide_eq_false_iff_not]
      exact not_lt.mpr reachedTarget
    exact ⟨fun label next taken index stored => present_of_full inv taken full,
      fun op admissible => refuses_of_full inv admissible full⟩
  · apply accepts_of_room inv admissible
    rw [room]
    exact decide_eq_true below

/-- Two messages are stored when the capacity of their lane is set to zero, which makes the target
one.  Both stay.  Once one of them is acknowledged its slot is free, and a third is refused. -/
theorem retained_immutable_shrunk :
    ∃ store : RetainedStore, system.Reachable store ∧
      (store.lane .a3).held = 1 ∧ (store.lane .a3).targetCapacity = 1 ∧
      (store.lane .a3).free = [0] ∧
      Refuses store (.insertTracked ⟨⟨9, 1, 2, a3MessageTypeBase, 0, []⟩, 2⟩ 10 0) := by
  have start : system.Reachable (RetainedStore.new ⟨1, 1, 1, 2⟩ 0) := .start ⟨_, _, rfl⟩
  have first := start.take (.insertTracked ⟨⟨7, 1, 2, a3MessageTypeBase, 0, []⟩, 0⟩ 10 0, _)
    ⟨trivial, rfl⟩
  have second := first.take (.insertTracked ⟨⟨8, 1, 2, a3MessageTypeBase, 0, []⟩, 1⟩ 10 0, _)
    ⟨trivial, rfl⟩
  have shrunk := second.take (.setCapacities ⟨1, 1, 1, 0⟩ 0, _) ⟨trivial, rfl⟩
  have acked := shrunk.take (.ack 7, _) ⟨trivial, rfl⟩
  obtain ⟨store, reached, held, target, free, admissible⟩ : ∃ store : RetainedStore,
      system.Reachable store ∧ (store.lane .a3).held = 1 ∧ (store.lane .a3).targetCapacity = 1 ∧
      (store.lane .a3).free = [0] ∧ Op.Admissible store .a3
        (.insertTracked ⟨⟨9, 1, 2, a3MessageTypeBase, 0, []⟩, 2⟩ 10 0) :=
    ⟨_, acked, rfl, rfl, rfl, rfl, rfl, by decide, rfl⟩
  obtain ⟨_, _, full, _⟩ := retained_immutable reached
  refine ⟨store, reached, held, target, free, ?_⟩
  apply (full .a3 _).2 _ admissible
  rw [held, target]

end AureliaPeering.Store
