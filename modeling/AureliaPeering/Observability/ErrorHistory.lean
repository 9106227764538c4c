import AureliaPeering.Ids
import Mathlib.Data.List.Induction

/-!
The error history of the observability actor and a client that pages through it.

Errors are numbered from one.  The client asks for what follows the last number it has seen, so it
misses an error only if that error was pushed out before the call that would have returned it.
-/

namespace AureliaPeering.Observability

open List

/-- The fields of `ObservabilityState` that `record_error` and `errors_since` use. -/
structure ErrorHistory where
  errors : List (Nat × AureliaError)
  nextSeq : Nat
  errorCapacity : Nat

namespace ErrorHistory

/-- `new_observability_with_capacities` raises the capacity to one. -/
def new (errorCapacity : Nat) : ErrorHistory := ⟨[], 0, max errorCapacity 1⟩

def recordError (state : ErrorHistory) (error : AureliaError) :
    (Nat × AureliaError) × ErrorHistory :=
  let nextSeq := (state.nextSeq + 1) % 2 ^ 64
  let errors := if state.errors.length = state.errorCapacity then state.errors.tail
    else state.errors
  ((nextSeq, error), { state with nextSeq, errors := errors ++ [(nextSeq, error)] })

/-- The loop of `errors_since`, with the break once `limit` errors are collected. -/
def collectSince (seq limit : Nat) (collected : List (Nat × AureliaError)) :
    List (Nat × AureliaError) → List (Nat × AureliaError)
  | [] => collected
  | err :: rest =>
    if seq < err.1 then
      if limit ≤ (collected ++ [err]).length then collected ++ [err]
      else collectSince seq limit (collected ++ [err]) rest
    else collectSince seq limit collected rest

def errorsSince (state : ErrorHistory) (seq limit : Nat) : List (Nat × AureliaError) :=
  if 0 < limit then collectSince seq limit [] state.errors else []

theorem collectSince_eq {seq limit : Nat} {errors : List (Nat × AureliaError)} :
    ∀ {collected}, collected.length < limit → collectSince seq limit collected errors =
      collected ++ (errors.filter (seq < ·.1)).take (limit - collected.length) := by
  induction errors with
  | nil => simp [collectSince]
  | cons err rest ih =>
    intro collected room
    by_cases above : seq < err.1
    · obtain ⟨left, more⟩ : ∃ left, limit - collected.length = left + 1 :=
        ⟨limit - collected.length - 1, by omega⟩
      rw [collectSince, if_pos above, filter_cons_of_pos (by simpa using above), more,
        take_succ_cons]
      split
      next reached =>
        obtain rfl : left = 0 := by simp at reached; omega
        simp
      next below =>
        rw [ih (by simpa using below),
          show limit - (collected ++ [err]).length = left by simp; omega]
        simp
    · rw [collectSince, if_neg above, filter_cons_of_neg (by simpa using above), ih room]

theorem errorsSince_eq (state : ErrorHistory) (seq limit : Nat) :
    state.errorsSince seq limit = (state.errors.filter (seq < ·.1)).take limit := by
  rw [errorsSince]
  split
  next positive => simpa using @collectSince_eq seq limit state.errors [] positive
  next none => simp [Nat.eq_zero_of_not_pos none]

end ErrorHistory

/-- The entries are numbered consecutively, from one. -/
def Counted (entries : List (Nat × AureliaError)) : Prop :=
  ∀ index entry, entries[index]? = some entry → entry.1 = index + 1

theorem Counted.filter_drop {entries : List (Nat × AureliaError)} (counted : Counted entries)
    (seen dropped : Nat) :
    (entries.drop dropped).filter (seen < ·.1) = entries.drop (max seen dropped) := by
  have parts : entries.drop dropped =
      (entries.drop dropped).take (seen - dropped) ++ entries.drop (max seen dropped) := by
    rw [show max seen dropped = dropped + (seen - dropped) by omega, ← drop_drop, take_append_drop]
  rw [parts, filter_append, filter_eq_nil_iff.mpr, filter_eq_self.mpr, nil_append]
  · intro entry listed
    obtain ⟨index, found⟩ := mem_iff_getElem?.mp listed
    rw [getElem?_drop] at found
    rw [decide_eq_true_iff, counted _ _ found]
    omega
  · intro entry listed
    obtain ⟨index, found⟩ := mem_iff_getElem?.mp listed
    rw [getElem?_take] at found
    split at found
    next below =>
      rw [getElem?_drop] at found
      rw [decide_eq_true_iff, counted _ _ found]
      omega
    next => cases found

theorem Counted.last_number {entries : List (Nat × AureliaError)} (counted : Counted entries)
    {first limit : Nat} {last : Nat × AureliaError}
    (isLast : ((entries.drop first).take limit).getLast? = some last) :
    last.1 = first + ((entries.drop first).take limit).length := by
  have some := length_pos_of_ne_nil (ne_nil_of_mem (mem_of_getLast? isLast))
  rw [getLast?_eq_getElem?, getElem?_take] at isLast
  split at isLast
  next =>
    rw [getElem?_drop] at isLast
    rw [counted _ _ isLast]
    omega
  next => cases isLast

inductive PagingOp where
  | record (error : AureliaError)
  | page (limit : Nat)

/-- The actor and one client.  `recorded` are all entries ever recorded, `received` what the calls
of the client returned, and `seen` is the last number among them. -/
structure Paging where
  history : ErrorHistory
  recorded : List (Nat × AureliaError)
  received : List (Nat × AureliaError)
  seen : Nat

namespace Paging

def apply (paging : Paging) : PagingOp → Paging
  | .record error =>
    let (entry, history) := paging.history.recordError error
    { paging with history, recorded := paging.recorded ++ [entry] }
  | .page limit =>
    let reply := paging.history.errorsSince paging.seen limit
    { paging with
      received := paging.received ++ reply
      seen := (reply.getLast?.map Prod.fst).getD paging.seen }

def of (errorCapacity : Nat) (ops : List PagingOp) : Paging :=
  ops.foldl apply ⟨.new errorCapacity, [], [], 0⟩

/-- How many errors a history of the capacity has pushed out. -/
def evicted (paging : Paging) (errorCapacity : Nat) : Nat :=
  paging.recorded.length - max errorCapacity 1

structure Inv (errorCapacity : Nat) (paging : Paging) : Prop where
  capacity : paging.history.errorCapacity = max errorCapacity 1
  next : paging.history.nextSeq = paging.recorded.length
  counted : Counted paging.recorded
  retained : paging.history.errors = paging.recorded.drop (paging.evicted errorCapacity)
  within : paging.seen ≤ paging.recorded.length
  received : paging.received <+ paging.recorded.take paging.seen

variable {paging : Paging} {errorCapacity : Nat}

theorem Inv.record (inv : paging.Inv errorCapacity) (error : AureliaError)
    (fewer : paging.recorded.length + 1 < 2 ^ 64) :
    (paging.apply (.record error)).Inv errorCapacity := by
  have next : (paging.history.nextSeq + 1) % 2 ^ 64 = paging.recorded.length + 1 := by
    rw [inv.next, Nat.mod_eq_of_lt fewer]
  have capacity := inv.capacity
  have size : paging.history.errors.length =
      paging.recorded.length - paging.evicted errorCapacity := by
    rw [inv.retained, length_drop]
  simp only [apply, ErrorHistory.recordError, next]
  refine ⟨capacity, by simp, fun index entry found => ?_, ?_, ?_, ?_⟩
  · rw [getElem?_append] at found
    split at found
    next => exact inv.counted index entry found
    next late =>
      obtain ⟨first, rfl⟩ := List.getElem?_eq_some_iff.mp found
      simp only [length_singleton] at first
      simp only [getElem_singleton]
      omega
  · simp only [evicted, length_append, length_singleton] at size ⊢
    rw [drop_append_of_le_length (by omega), append_left_inj]
    split
    next full =>
      rw [inv.retained, tail_drop, evicted]
      congr 1
      omega
    next room =>
      rw [inv.retained, evicted]
      congr 1
      omega
  · exact Nat.le_trans inv.within (by simp)
  · rw [take_append_of_le_length inv.within]
    exact inv.received

/-- A call returns the first `limit` errors after the ones seen and the ones pushed out. -/
theorem Inv.reply_eq (inv : paging.Inv errorCapacity) (limit : Nat) :
    paging.history.errorsSince paging.seen limit =
      (paging.recorded.drop (max paging.seen (paging.evicted errorCapacity))).take limit := by
  rw [ErrorHistory.errorsSince_eq, inv.retained, inv.counted.filter_drop]

/-- A call moves `seen` over the errors it returns and over errors pushed out before it. -/
theorem Inv.page (inv : paging.Inv errorCapacity) (limit : Nat) :
    (paging.apply (.page limit)).Inv errorCapacity ∧
      ∀ index entry, paging.recorded[index]? = some entry →
        index < (paging.apply (.page limit)).seen → index < paging.seen ∨
          index < paging.evicted errorCapacity ∨
            entry ∈ paging.history.errorsSince paging.seen limit := by
  have reply := inv.reply_eq limit
  cases isLast : (paging.history.errorsSince paging.seen limit).getLast? with
  | none =>
    have unchanged : paging.apply (.page limit) = paging := by
      simp [apply, getLast?_eq_none_iff.mp isLast]
    rw [unchanged]
    exact ⟨inv, fun _ _ _ below => .inl below⟩
  | some last =>
    have seen : (paging.apply (.page limit)).seen = max paging.seen (paging.evicted errorCapacity) +
        (paging.history.errorsSince paging.seen limit).length := by
      rw [reply] at isLast ⊢
      simp only [apply, reply, isLast]
      exact inv.counted.last_number isLast
    have taken : paging.recorded.take (paging.apply (.page limit)).seen =
        paging.recorded.take (max paging.seen (paging.evicted errorCapacity)) ++
          paging.history.errorsSince paging.seen limit := by
      have front : paging.history.errorsSince paging.seen limit <+:
          paging.recorded.drop (max paging.seen (paging.evicted errorCapacity)) :=
            reply ▸ take_prefix _ _
      rw [seen, take_add, ← prefix_iff_eq_take.mp front]
    have size := congrArg length reply
    have within := inv.within
    have positive := length_pos_of_ne_nil (ne_nil_of_mem (mem_of_getLast? isLast))
    simp only [length_take, length_drop] at size
    refine ⟨⟨inv.capacity, inv.next, inv.counted, inv.retained, ?_, ?_⟩,
      fun index entry found below => ?_⟩
    · rw [seen]
      change _ ≤ paging.recorded.length
      omega
    · exact taken ▸ (inv.received.trans
        (take_prefix_take_left (Nat.le_max_left _ _)).sublist).append (Sublist.refl _)
    · by_cases passed : index < max paging.seen (paging.evicted errorCapacity)
      · omega
      · refine .inr
          (.inr (mem_iff_getElem?.mpr ⟨index - max paging.seen (paging.evicted errorCapacity), ?_⟩))
        rw [reply, getElem?_take_of_lt (by omega), getElem?_drop,
          Nat.add_sub_cancel' (Nat.le_of_not_lt passed), found]

theorem of_concat (errorCapacity : Nat) (ops : List PagingOp) (op : PagingOp) :
    of errorCapacity (ops ++ [op]) = (of errorCapacity ops).apply op := by
  simp [of]

theorem inv_of (errorCapacity : Nat) (ops : List PagingOp)
    (fewer : (of errorCapacity ops).recorded.length < 2 ^ 64) :
    (of errorCapacity ops).Inv errorCapacity := by
  induction ops using List.reverseRecOn with
  | nil =>
    refine ⟨rfl, rfl, fun _ _ found => ?_, ?_, Nat.le_refl 0, Sublist.refl []⟩
    · cases found
    · exact drop_nil.symm
  | append_singleton ops op ih =>
    rw [of_concat] at fewer ⊢
    cases op with
    | record error =>
      simp only [apply, length_append, length_singleton] at fewer
      exact (ih (by omega)).record error fewer
    | page limit => exact ((ih fewer).page limit).1

/-- An error the client has gone past was returned to it, or had been pushed out when the call that
went past it was answered. -/
theorem received_or_evicted (errorCapacity : Nat) (ops : List PagingOp)
    (fewer : (of errorCapacity ops).recorded.length < 2 ^ 64) {index : Nat}
    {entry : Nat × AureliaError} (found : (of errorCapacity ops).recorded[index]? = some entry)
    (below : index < (of errorCapacity ops).seen) :
    entry ∈ (of errorCapacity ops).received ∨ ∃ before limit, before ++ [.page limit] <+: ops ∧
      (of errorCapacity before).seen ≤ index ∧
        index < (of errorCapacity before).evicted errorCapacity := by
  induction ops using List.reverseRecOn with
  | nil => cases found
  | append_singleton ops op ih =>
    have longer : (∃ before limit, before ++ [PagingOp.page limit] <+: ops ∧
        (of errorCapacity before).seen ≤ index ∧
          index < (of errorCapacity before).evicted errorCapacity) →
        ∃ before limit, before ++ [PagingOp.page limit] <+: ops ++ [op] ∧
        (of errorCapacity before).seen ≤ index ∧
          index < (of errorCapacity before).evicted errorCapacity := by
      rintro ⟨before, limit, front, evicted⟩
      exact ⟨before, limit, front.trans (prefix_append ops [op]), evicted⟩
    rw [of_concat] at fewer found below ⊢
    cases op with
    | record error =>
      simp only [apply, length_append, length_singleton] at fewer
      have inv := inv_of errorCapacity ops (by omega)
      have old : (of errorCapacity ops).recorded[index]? = some entry := by
        rw [← found]
        exact (getElem?_append_left (Nat.lt_of_lt_of_le below inv.within)).symm
      exact (ih (by omega) old below).imp_right longer
    | page limit =>
      by_cases earlier : index < (of errorCapacity ops).seen
      · exact (ih fewer found earlier).imp (mem_append_left _) longer
      · rcases ((inv_of errorCapacity ops fewer).page limit).2 index entry found below with
          seen | evicted | returned
        · exact absurd seen earlier
        · exact .inr ⟨ops, limit, prefix_refl _, Nat.le_of_not_lt earlier, evicted⟩
        · exact .inl (mem_append_right _ returned)

/-- The retained errors are the most recent ones, a call returns the first of those that the client
has not seen, and the client receives in order, and once, what was not pushed out before. -/
theorem errors_paged_once (errorCapacity : Nat) (ops : List PagingOp)
    (fewer : (of errorCapacity ops).recorded.length < 2 ^ 64) :
    let paging := of errorCapacity ops
    paging.history.errors = paging.recorded.drop (paging.evicted errorCapacity) ∧
    (∀ index entry, paging.recorded[index]? = some entry → entry.1 = index + 1) ∧
    (∀ limit, paging.history.errorsSince paging.seen limit =
      (paging.recorded.drop (max paging.seen (paging.evicted errorCapacity))).take limit) ∧
    paging.received <+ paging.recorded ∧
    ∀ index entry, paging.recorded[index]? = some entry → index < paging.seen →
      entry ∈ paging.received ∨ ∃ before limit, before ++ [.page limit] <+: ops ∧
        (of errorCapacity before).seen ≤ index ∧
        index < (of errorCapacity before).evicted errorCapacity :=
  have inv := inv_of errorCapacity ops fewer
  ⟨inv.retained, inv.counted, inv.reply_eq, inv.received.trans (take_sublist _ _),
    fun _ _ => received_or_evicted errorCapacity ops fewer⟩

/-- The second error is pushed out by the third before the client asks for it. -/
def evictingOps : List PagingOp :=
  [.record (.new .peerRestarted), .page 2, .record (.new .peerUnavailable),
    .record (.new .sendTimeout), .page 2, .record (.new .connectionLost)]

theorem errors_paged_once_evicting :
    let paging := of 1 evictingOps
    paging.recorded.length = 4 ∧
    paging.received = [(1, .new .peerRestarted), (3, .new .sendTimeout)] ∧
    paging.history.errors = paging.recorded.drop 3 ∧
    (∀ index entry, paging.recorded[index]? = some entry → entry.1 = index + 1) ∧
    (∀ limit, paging.history.errorsSince 3 limit = (paging.recorded.drop 3).take limit) ∧
    paging.received <+ paging.recorded ∧
    ∃ before limit, before ++ [.page limit] <+: evictingOps ∧ (of 1 before).seen ≤ 1 ∧
      1 < (of 1 before).evicted 1 := by
  obtain ⟨retained, counted, replies, once, every⟩ := errors_paged_once 1 evictingOps (by decide)
  exact ⟨by decide, by decide, retained, counted, replies, once,
    (every 1 _ rfl (by decide)).resolve_left (by decide)⟩

end Paging

end AureliaPeering.Observability
