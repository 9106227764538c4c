import Mathlib.Data.Finset.Basic
import AureliaPeering.Ids
import AureliaPeering.Lib.HashMap

/-!
Receiver-side duplicate suppression of a peer session.

The history holds the accepted ids, oldest first, up to a limit.  An id whose delivery is not
decided yet is pending, with the channels of the duplicates that arrived meanwhile.
-/

namespace AureliaPeering.Session

open Collections

/-- The channel on which a pending duplicate waits for its decision. -/
abbrev DecisionSender := Nat

inductive DedupeDecision where
  | ack
  | error (error : AureliaError)
  | abandoned
deriving DecidableEq, Repr

inductive DedupeBegin where
  | new
  | duplicate (decision : DedupeDecision)
  | pendingDuplicate (decision : DecisionSender)
deriving DecidableEq, Repr

/-- A decision sent to one waiting duplicate. -/
abbrev Resolution := DecisionSender × DedupeDecision

structure DedupeState where
  set : Finset PeerMessageId
  order : List PeerMessageId
  pending : HashMap PeerMessageId (List DecisionSender)
deriving DecidableEq

def minDedupeHistory : Nat := 128

/-- The multiplication saturates at the largest `usize`. -/
def dedupeLimit (sendQueueSize : Nat) : Nat :=
  max (min (sendQueueSize * 2) (u64Limit - 1)) minDedupeHistory

/-- The eviction loop: pop the oldest id while the history is longer than the limit. -/
def evict (limit : Nat) : List PeerMessageId → Finset PeerMessageId →
    List PeerMessageId × Finset PeerMessageId
  | [], set => ([], set)
  | oldest :: rest, set =>
    if limit < rest.length + 1 then evict limit rest (set.erase oldest) else (oldest :: rest, set)

namespace DedupeState

def new : DedupeState := ⟨∅, [], ∅⟩

def clear (_ : DedupeState) : DedupeState := new

/-- `sender` is the sending half of the channel that a pending duplicate creates. -/
def dedupeBegin (state : DedupeState) (peerMsgId : PeerMessageId) (sender : DecisionSender) :
    DedupeBegin × DedupeState :=
  if peerMsgId ∈ state.set then (.duplicate .ack, state)
  else
    match state.pending.lookup peerMsgId with
    | some waiters =>
      (.pendingDuplicate sender,
        { state with pending := AList.insert peerMsgId (waiters ++ [sender]) state.pending })
    | none => (.new, { state with pending := AList.insert peerMsgId [] state.pending })

def waiters (state : DedupeState) (peerMsgId : PeerMessageId) : List DecisionSender :=
  (state.pending.lookup peerMsgId).getD []

def removePending (state : DedupeState) (peerMsgId : PeerMessageId) : DedupeState :=
  { state with pending := AList.erase peerMsgId state.pending }

/-- Record an accepted id, unless it is recorded already. -/
def record (state : DedupeState) (limit : Nat) (peerMsgId : PeerMessageId) : DedupeState :=
  if peerMsgId ∈ state.set then state
  else
    let (order, set) := evict limit (state.order ++ [peerMsgId]) (insert peerMsgId state.set)
    { state with order := order, set := set }

def decisionOf : Except AureliaError Unit → DedupeDecision
  | .ok _ => .ack
  | .error error => .error error

/-- `sendQueueSize` is read from the configuration snapshot of the call. -/
def dedupeComplete (state : DedupeState) (sendQueueSize : Nat) (peerMsgId : PeerMessageId)
    (result : Except AureliaError Unit) : List Resolution × DedupeState :=
  let next := state.removePending peerMsgId
  ((state.waiters peerMsgId).map fun sender => (sender, decisionOf result),
    match result with
    | .ok _ => next.record (dedupeLimit sendQueueSize) peerMsgId
    | .error _ => next)

def dedupeAbandon (state : DedupeState) (peerMsgId : PeerMessageId) :
    List Resolution × DedupeState :=
  ((state.waiters peerMsgId).map fun sender => (sender, .abandoned), state.removePending peerMsgId)

end DedupeState

theorem dedupeLimit_pos (sendQueueSize : Nat) : 0 < dedupeLimit sendQueueSize :=
  Nat.lt_of_lt_of_le (by decide : 0 < minDedupeHistory) (Nat.le_max_right ..)

section Eviction

variable {limit : Nat} {order : List PeerMessageId} {set : Finset PeerMessageId}

theorem evict_order_isSuffix : (evict limit order set).1 <:+ order := by
  induction order generalizing set with
  | nil => exact List.suffix_rfl
  | cons oldest rest ih =>
    unfold evict
    split
    · exact ih.trans (List.suffix_cons oldest rest)
    · exact List.suffix_rfl

theorem evict_order_length : (evict limit order set).1.length ≤ limit := by
  induction order generalizing set with
  | nil => exact Nat.zero_le limit
  | cons oldest rest ih =>
    unfold evict
    split
    · exact ih
    · rename_i short
      simpa using short

theorem evict_set_subset : (evict limit order set).2 ⊆ set := by
  induction order generalizing set with
  | nil => exact Finset.Subset.refl set
  | cons oldest rest ih =>
    unfold evict
    split
    · exact ih.trans (Finset.erase_subset oldest set)
    · exact Finset.Subset.refl set

theorem mem_evict_set {peerMsgId : PeerMessageId} :
    peerMsgId ∈ (evict limit order set).2 ↔
      peerMsgId ∈ set ∧ peerMsgId ∉ order.take (order.length - limit) := by
  induction order generalizing set with
  | nil => simp [evict]
  | cons oldest rest ih =>
    unfold evict
    split
    · rename_i long
      have excess : (oldest :: rest).length - limit = (rest.length - limit) + 1 := by
        rw [List.length_cons]
        omega
      rw [ih, excess, List.take_succ_cons, Finset.mem_erase, List.mem_cons]
      tauto
    · rename_i short
      have excess : (oldest :: rest).length - limit = 0 := by
        rw [List.length_cons]
        omega
      rw [excess, List.take_zero]
      simp

theorem evict_order_eq_drop : (evict limit order set).1 = order.drop (order.length - limit) := by
  induction order generalizing set with
  | nil => simp [evict]
  | cons oldest rest ih =>
    unfold evict
    split
    · rename_i long
      have excess : (oldest :: rest).length - limit = (rest.length - limit) + 1 := by
        rw [List.length_cons]
        omega
      rw [ih, excess, List.drop_succ_cons]
    · rename_i short
      have excess : (oldest :: rest).length - limit = 0 := by
        rw [List.length_cons]
        omega
      rw [excess, List.drop_zero]

theorem evict_of_length_le (short : order.length ≤ limit) :
    evict limit order set = (order, set) := by
  cases order with
  | nil => rfl
  | cons oldest rest => exact if_neg (Nat.not_lt.mpr short)

theorem evict_toFinset (distinct : order.Nodup) (agree : order.toFinset = set) :
    (evict limit order set).1.toFinset = (evict limit order set).2 := by
  induction order generalizing set with
  | nil => exact agree
  | cons oldest rest ih =>
    obtain ⟨absent, distinct⟩ := List.nodup_cons.mp distinct
    unfold evict
    split
    · refine ih distinct ?_
      rw [← agree, List.toFinset_cons, Finset.erase_insert (by simpa using absent)]
    · exact agree

end Eviction

namespace DedupeState

/-- The order lists the set, without repetition. -/
structure Invariant (state : DedupeState) : Prop where
  distinct : state.order.Nodup
  agree : state.order.toFinset = state.set

/-- The same history and the same pending entries, whatever the representation. -/
structure Alike (state other : DedupeState) : Prop where
  set : state.set = other.set
  order : state.order = other.order
  pending : ∀ peerMsgId, state.pending.lookup peerMsgId = other.pending.lookup peerMsgId

variable {limit : Nat} {state : DedupeState}

theorem Alike.refl (state : DedupeState) : state.Alike state := ⟨rfl, rfl, fun _ => rfl⟩

theorem new_invariant : new.Invariant := ⟨List.nodup_nil, rfl⟩

@[simp]
theorem mem_new_set (peerMsgId : PeerMessageId) : peerMsgId ∉ new.set := by
  simp [new]

@[simp]
theorem lookup_new_pending (peerMsgId : PeerMessageId) : new.pending.lookup peerMsgId = none := by
  simp [new]

@[simp]
theorem removePending_set (state : DedupeState) (peerMsgId : PeerMessageId) :
    (state.removePending peerMsgId).set = state.set := rfl

theorem removePending_lookup (state : DedupeState) (peerMsgId other : PeerMessageId) :
    (state.removePending peerMsgId).pending.lookup other =
      if other = peerMsgId then none else state.pending.lookup other :=
  HashMap.lookup_erase_eq ..

@[simp]
theorem record_pending (state : DedupeState) (limit : Nat) (peerMsgId : PeerMessageId) :
    (state.record limit peerMsgId).pending = state.pending := by
  unfold record
  split <;> rfl

theorem record_set_subset (state : DedupeState) (limit : Nat) (peerMsgId : PeerMessageId) :
    (state.record limit peerMsgId).set ⊆ insert peerMsgId state.set := by
  unfold record
  split
  · exact Finset.subset_insert peerMsgId state.set
  · exact evict_set_subset

theorem subset_record_set (state : DedupeState) (room : state.order.length < limit)
    (peerMsgId : PeerMessageId) : state.set ⊆ (state.record limit peerMsgId).set := by
  unfold record
  split
  · exact Finset.Subset.refl state.set
  · rw [evict_of_length_le (by simpa using Nat.succ_le_of_lt room)]
    exact Finset.subset_insert peerMsgId state.set

/-- The ids that recording one more would push out of the history. -/
def oldest (state : DedupeState) (limit : Nat) : List PeerMessageId :=
  state.order.take (state.order.length + 1 - limit)

/-- A recorded id stays, whatever it pushes out. -/
theorem mem_record_self (inv : state.Invariant)
    (positive : 0 < limit) (peerMsgId : PeerMessageId) :
    peerMsgId ∈ (state.record limit peerMsgId).set := by
  unfold record
  split
  · assumption
  · rename_i absent
    have fresh : peerMsgId ∉ state.order := by
      rwa [← inv.agree, List.mem_toFinset] at absent
    rw [mem_evict_set]
    refine ⟨Finset.mem_insert_self _ _, fun taken => fresh ?_⟩
    rw [List.take_append_of_le_length (by simp; omega)] at taken
    exact List.mem_of_mem_take taken

theorem mem_record_of_mem (positive : 0 < limit)
    {peerMsgId other : PeerMessageId} (recorded : other ∈ state.set)
    (young : other ∉ state.oldest limit) : other ∈ (state.record limit peerMsgId).set := by
  unfold record
  split
  · exact recorded
  · rw [mem_evict_set, List.take_append_of_le_length (by simp; omega)]
    exact ⟨Finset.mem_insert_of_mem recorded, by simpa [oldest] using young⟩

theorem record_invariant (inv : state.Invariant) (limit : Nat)
    (peerMsgId : PeerMessageId) : (state.record limit peerMsgId).Invariant := by
  unfold record
  split
  · exact inv
  · rename_i absent
    have fresh : peerMsgId ∉ state.order := by
      rwa [← inv.agree, List.mem_toFinset] at absent
    have distinct : (state.order ++ [peerMsgId]).Nodup := by
      rw [List.nodup_append]
      refine ⟨inv.distinct, List.nodup_singleton peerMsgId, ?_⟩
      rintro other membership _ here rfl
      exact fresh (List.mem_singleton.mp here ▸ membership)
    refine ⟨distinct.sublist evict_order_isSuffix.sublist, evict_toFinset distinct ?_⟩
    ext other
    simp [← inv.agree, or_comm]

/-- Everything a begin can do. -/
theorem dedupeBegin_cases (state : DedupeState) (peerMsgId : PeerMessageId)
    (sender : DecisionSender) :
    (peerMsgId ∈ state.set ∧ state.dedupeBegin peerMsgId sender = (.duplicate .ack, state)) ∨
    (∃ waiters, peerMsgId ∉ state.set ∧ state.pending.lookup peerMsgId = some waiters ∧
      state.dedupeBegin peerMsgId sender = (.pendingDuplicate sender,
        { state with
          pending := AList.insert peerMsgId (waiters ++ [sender]) state.pending })) ∨
    (peerMsgId ∉ state.set ∧ state.pending.lookup peerMsgId = none ∧
      state.dedupeBegin peerMsgId sender =
        (.new, { state with pending := AList.insert peerMsgId [] state.pending })) := by
  unfold dedupeBegin
  by_cases recorded : peerMsgId ∈ state.set
  · exact .inl ⟨recorded, if_pos recorded⟩
  · rw [if_neg recorded]
    cases found : state.pending.lookup peerMsgId with
    | some waiters => exact .inr (.inl ⟨waiters, recorded, rfl, rfl⟩)
    | none => exact .inr (.inr ⟨recorded, rfl, rfl⟩)

theorem dedupeBegin_eq_ack_iff (state : DedupeState) (peerMsgId : PeerMessageId)
    (sender : DecisionSender) :
    (state.dedupeBegin peerMsgId sender).1 = .duplicate .ack ↔ peerMsgId ∈ state.set := by
  rcases state.dedupeBegin_cases peerMsgId sender with
    ⟨recorded, taken⟩ | ⟨_, recorded, _, taken⟩ | ⟨recorded, _, taken⟩ <;>
  simp [taken, recorded]

theorem dedupeComplete_set_subset (state : DedupeState) (sendQueueSize : Nat)
    (peerMsgId : PeerMessageId) (result : Except AureliaError Unit) :
    (state.dedupeComplete sendQueueSize peerMsgId result).2.set ⊆ insert peerMsgId state.set := by
  cases result with
  | ok => exact record_set_subset (state.removePending peerMsgId) _ peerMsgId
  | error => exact Finset.subset_insert peerMsgId state.set

theorem dedupeComplete_lookup (state : DedupeState) (sendQueueSize : Nat)
    (peerMsgId other : PeerMessageId) (result : Except AureliaError Unit) :
    (state.dedupeComplete sendQueueSize peerMsgId result).2.pending.lookup other =
      if other = peerMsgId then none else state.pending.lookup other := by
  rw [← removePending_lookup]
  cases result with
  | ok => exact congrArg (AList.lookup other) (record_pending ..)
  | error => rfl

theorem dedupeComplete_invariant (inv : state.Invariant)
    (sendQueueSize : Nat) (peerMsgId : PeerMessageId) (result : Except AureliaError Unit) :
    (state.dedupeComplete sendQueueSize peerMsgId result).2.Invariant := by
  have removed : (state.removePending peerMsgId).Invariant := ⟨inv.distinct, inv.agree⟩
  cases result with
  | ok => exact record_invariant removed _ peerMsgId
  | error => exact removed

end DedupeState

end AureliaPeering.Session
