import AureliaPeering.Callis.Originals

/-!
What a receive loop leaves behind when it ends.

The end of the stream, a read error and a shutdown go through `cancel_all`, and the loop ends once
its map of waiters is empty.  A frame whose handler fails breaks the loop at once: an original
waiter it held is then in no loop that runs.
-/

namespace AureliaPeering.Callis

open Collections Session Blob AureliaPeering.Ring Option
open Net (AcceptDecision InboundOutcome)

/-- The loop has nothing in hand, and none of its waiters is an original. -/
structure Reader.Emptied (reader : Reader) : Prop where
  hand : reader.hand = none
  waiters : ∀ id waiter, reader.waiters.lookup id = some waiter → waiter.acceptRx = none

variable {reader : Reader}

theorem Reader.Emptied.not_holds (emptied : reader.Emptied) (id : PeerMessageId)
    (holding : Holding) : ¬reader.Holds id holding := by
  rintro (listed | ⟨_, isHand, _⟩)
  · obtain ⟨waiter, found, isHolding⟩ := bind_eq_some_iff.mp listed
    have isNone := emptied.waiters id waiter found
    cases waiter with
    | duplicate decisionRx => cases isHolding
    | _ => cases isNone
  · cases emptied.hand.symm.trans isHand

namespace Reception

/-- A frame fails only in a loop that holds no original waiter. -/
def LeavesNothing (state : Reception) : Label → Prop
  | .failFrame callis _ =>
    ((state.readers.lookup callis).all fun reader =>
      reader.waiters.entries.all fun entry => entry.2.acceptRx.isNone) = true
  | label => state.Undisturbed label

instance (state : Reception) (label : Label) : Decidable (state.LeavesNothing label) := by
  unfold LeavesNothing
  split <;> infer_instance

theorem LeavesNothing.undisturbed {state : Reception} {label : Label}
    (leavesNothing : state.LeavesNothing label) : state.Undisturbed label := by
  cases label with
  | failFrame callis reason => trivial
  | _ => exact leavesNothing

/-- Every loop that has ended is empty. -/
def Tidy (state : Reception) : Prop :=
  ∀ callis reader, state.readers.lookup callis = some reader → reader.ended = true → reader.Emptied

section Step

variable {state next : Reception} {callis : CallisId} {reader : Reader} {label : Label}

theorem Tidy.works (tidy : state.Tidy) {id : PeerMessageId} (works : Works state next callis id)
    (running : ∀ reader, state.readers.lookup callis = some reader → reader.ended = true →
      reader.hand ≠ none) : next.Tidy := by
  obtain ⟨reader, changed, _, _, focus, _⟩ := works
  intro other held isHeld ended
  rcases focus.reader_cases isHeld with ⟨rfl, rfl⟩ | ⟨_, before⟩
  · -- A loop that has ended has nothing in hand.
    rw [focus.ended] at ended
    exact absurd (tidy other reader focus.found ended).hand (running reader focus.found ended)
  · exact tidy other held before ended

theorem Tidy.setReader (tidy : state.Tidy) {changed : Reader}
    (emptied : changed.ended = true → changed.Emptied) : (state.setReader callis changed).Tidy := by
  intro other held isHeld ended
  rw [lookup_setReader] at isHeld
  split at isHeld
  · cases isHeld
    exact emptied ended
  · exact tidy other held isHeld ended

theorem waiters_of_failFrame {reason : CancelReason}
    (leavesNothing : state.LeavesNothing (.failFrame callis reason))
    (found : state.readers.lookup callis = some reader) :
    ∀ id waiter, reader.waiters.lookup id = some waiter → waiter.acceptRx = none := by
  have held : ((state.readers.lookup callis).all fun reader =>
      reader.waiters.entries.all fun entry => entry.2.acceptRx.isNone) = true := leavesNothing
  rw [found, all_some, List.all_eq_true] at held
  intro id waiter listed
  exact isNone_iff_eq_none.mp (held ⟨id, waiter⟩ (AList.mem_lookup_iff.mp listed))

theorem Tidy.step (tidy : state.Tidy) (kept : state.Kept) (stepped : state.step label = some next)
    (leavesNothing : state.LeavesNothing label) : next.Tidy := by
  cases kept.acts stepped leavesNothing.undisturbed with
  | works works running => exact tidy.works works running
  | @flags _ changed turned same ends =>
    rw [turned]
    refine tidy.setReader fun ended => ?_
    rcases same with ⟨_, rfl⟩ | ⟨reader, idle, waiters, hand⟩
    · cases ended
    obtain ⟨found, _, free⟩ := idleReader_eq_some idle
    refine ⟨hand.trans free, fun id waiter listed => ?_⟩
    rcases ends ended with empty | ⟨reason, rfl⟩
    · have entry := AList.mem_lookup_iff.mp listed
      rw [empty] at entry
      cases entry
    · exact waiters_of_failFrame leavesNothing found id waiter (waiters ▸ listed)
  | outside readers => exact fun other held isHeld => tidy other held (readers ▸ isHeld)
  | @cleans _ op _ _ _ cleaned =>
    obtain ⟨blob, same⟩ := cleanupStep_eq state op
    rw [cleaned, same]
    exact tidy

end Step

variable {sendQueueSize : Nat} {state : Reception}

theorem tidy_reachable (reached : ((system sendQueueSize).restrict LeavesNothing).Reachable state) :
    state.Kept ∧ state.Tidy := by
  refine @Machine.System.Reachable.invariant _ _ _ (fun state => state.Kept ∧ state.Tidy) ?_ ?_ _
    reached
  · rintro _ rfl
    refine ⟨kept_new sendQueueSize, fun _ _ found => ?_⟩
    simp [new] at found
  · rintro _ _ _ ⟨kept, tidy⟩ ⟨stepped, leavesNothing⟩
    exact ⟨kept.step stepped leavesNothing.undisturbed, tidy.step kept stepped leavesNothing⟩

/-- A loop that has ended holds no original waiter.  No id is pending on its behalf, and whatever is
still pending, reserved or requested is with a loop that runs, a stream or a clean-up. -/
theorem ended_reader_leaves_nothing {sendQueueSize : Nat} {state : Reception}
    (reached : ((system sendQueueSize).restrict LeavesNothing).Reachable state)
    {callis : CallisId} {reader : Reader} (found : state.readers.lookup callis = some reader)
    (ended : reader.ended = true) :
    (∀ id acceptRx, ¬reader.Original id acceptRx) ∧
    (∀ id acceptRx, state.begun.lookup id = some (callis, acceptRx) →
      state.dedupe.pending.lookup id = none) ∧
    (∀ id, (state.dedupe.pending.lookup id).isSome →
      ∃ other acceptRx holder, state.begun.lookup id = some (other, acceptRx) ∧
        state.readers.lookup other = some holder ∧ holder.ended = false ∧
        holder.Original id acceptRx) ∧
    (∀ id, (state.reservations.lookup id).isSome →
      (state.streams.lookup id).isSome ∨ (∃ ops ∈ state.cleanups, .release id ∈ ops) ∨
        ∃ other holder, state.readers.lookup other = some holder ∧ holder.ended = false ∧
          (holder.Grips id ∨ holder.Waits id ∧ (state.requests.lookup id).isSome)) ∧
    ∀ id, (state.requests.lookup id).isSome →
      ∃ other holder, state.readers.lookup other = some holder ∧ holder.ended = false ∧
        holder.Waits id := by
  obtain ⟨kept, tidy⟩ := tidy_reachable reached
  have running {other : CallisId} {holder : Reader}
      (isHolder : state.readers.lookup other = some holder)
      (holds : holder.Emptied → False) : holder.ended = false :=
    Bool.eq_false_iff.mpr fun hasEnded => holds (tidy other holder isHolder hasEnded)
  have emptied := tidy callis reader found ended
  have attended (id : PeerMessageId) (isPending : (state.dedupe.pending.lookup id).isSome) :
      ∃ other acceptRx holder, state.begun.lookup id = some (other, acceptRx) ∧
        state.readers.lookup other = some holder ∧ holder.ended = false ∧
        holder.Original id acceptRx := by
    obtain ⟨other, acceptRx, holder, begun, isHolder, original⟩ := kept.pending id isPending
    exact ⟨other, acceptRx, holder, begun, isHolder,
      running isHolder fun empty => original.elim fun _ => empty.not_holds id _, original⟩
  refine ⟨fun id _ original => original.elim fun _ => emptied.not_holds id _, ?_, attended, ?_, ?_⟩
  · intro id acceptRx begun
    cases isPending : state.dedupe.pending.lookup id with
    | none => rfl
    | some waiting =>
      obtain ⟨other, _, holder, isBegun, isHolder, runs, _⟩ := attended id (by simp [isPending])
      obtain ⟨⟨⟩⟩ := some.inj (begun.symm.trans isBegun)
      cases found.symm.trans isHolder
      cases ended.symm.trans runs
  · intro id isReserved
    rcases kept.reserved id isReserved with stream | release | ⟨other, holder, isHolder, holds⟩
    · exact .inl stream
    · exact .inr (.inl release)
    · refine .inr (.inr ⟨other, holder, isHolder, running isHolder fun empty => ?_, holds⟩)
      rcases holds with ⟨_, grips⟩ | ⟨⟨_, waits⟩, _⟩
      · exact empty.not_holds id _ grips
      · exact empty.not_holds id _ waits
  · intro id isRequested
    obtain ⟨other, holder, isHolder, waits⟩ := kept.requested id isRequested
    exact ⟨other, holder, isHolder,
      running isHolder fun empty => waits.elim fun _ => empty.not_holds id _, waits⟩

/-- A blob request is refused when its loop is shut down, and the loop ends. -/
theorem ended_reader_leaves_nothing_shutdown :
    ∃ state reader, ((system 4).restrict LeavesNothing).Reachable state ∧
      state.readers.lookup 1 = some reader ∧ reader.ended = true ∧
      state.begun.lookup 7 = some (1, 0) ∧ state.dedupe.pending.lookup 7 = none := by
  obtain ⟨state, reached, present, begun⟩ :
      ∃ state, ((system 4).restrict LeavesNothing).Reachable state ∧
        (state.readers.lookup 1).any Reader.ended = true ∧ state.begun.lookup 7 = some (1, 0) :=
    Machine.System.exists_guarded [.open 1, .receive 1 (arriving true 7), .hand 1 smooth,
      .hand 1 smooth, .close 1 .localShutdown, .cancel 1 7 4, .hand 1 smooth, .hand 1 smooth,
      .exit 1] rfl (by decide)
  obtain ⟨reader, found, ended⟩ := (any_eq_true _ _).mp present
  exact ⟨state, reader, reached, found, ended, begun,
    (ended_reader_leaves_nothing reached found ended).2.1 7 0 begun⟩

/-- A frame that fails ends the loop with an undecided blob request: its id stays pending and its
bytes reserved, and the replay on another callis waits for good. -/
theorem failed_frame_leaves_pending :
    ∃ state reader, (system 4).Reachable state ∧
      state.readers.lookup 1 = some reader ∧ reader.ended = true ∧ reader.Original 7 0 ∧
      (state.dedupe.pending.lookup 7).isSome ∧ state.begun.lookup 7 = some (1, 0) ∧
      (state.reservations.lookup 7).isSome ∧ state.decisionOn 0 = some .accepted ∧
      ∀ queueSize, state.step (.drain 1 7 queueSize) = none ∧
        state.step (.drain 2 7 queueSize) = none := by
  obtain ⟨state, reached, present, isPending, begun, isReserved, decided, stopped, undecided,
      waiting, second⟩ :
      ∃ state, (system 4).Reachable state ∧
        (state.readers.lookup 1).any (fun reader => reader.ended &&
          decide (reader.listed 7 = some (0, .gripping))) = true ∧
        (state.dedupe.pending.lookup 7).isSome ∧ state.begun.lookup 7 = some (1, 0) ∧
        (state.reservations.lookup 7).isSome ∧ state.decisionOn 0 = some .accepted ∧
        (state.idleReader 1).isNone ∧ (state.duplicates[0]?).join = none ∧
        0 ∈ state.dedupe.waiters 7 ∧ (state.idleReader 2).any (fun reader =>
          decide (reader.waiters.lookup 7 = some (.duplicate 0))) = true :=
    Machine.System.exists_reachable [.open 1, .receive 1 (arriving true 7), .hand 1 smooth,
      .hand 1 smooth, .failFrame 1 .remoteClose, .open 2, .receive 2 (arriving true 7),
      .decide 0 .accepted] rfl (by decide)
  simp only [Bool.and_eq_true, decide_eq_true_eq, any_eq_true, isNone_iff_eq_none]
    at present stopped second
  obtain ⟨reader, found, ended, listed⟩ := present
  obtain ⟨_, idle, joined⟩ := second
  refine ⟨state, reader, reached, found, ended, ⟨_, .inl listed⟩, isPending, begun,
    isReserved, decided, fun queueSize => ⟨?_, ?_⟩⟩
  · change (state.idleReader 1).bind _ = none
    rw [stopped]
    rfl
  · change (state.idleReader 2).bind _ = none
    rw [idle, bind_some]
    unfold drain
    simp only [joined, bind_some, undecided]
    exact if_pos waiting

end Reception

end AureliaPeering.Callis
