import AureliaPeering.Callis.WaiterSteps
import AureliaPeering.Net.InboundSteps

/-!
The original waiter of a pending id.

As long as no copy of a frame comes to a loop that still holds the original, the loop that received
an id first holds its waiter until the decision of the taberna has reached every duplicate, and a
reservation is always held.
-/

namespace AureliaPeering.Callis

open Collections Session Blob AureliaPeering.Ring List Option
open Net (AcceptDecision InboundOutcome)

/-- The loop waits for the decision of the taberna on an id. -/
def Reader.Awaits (reader : Reader) (id : PeerMessageId) (acceptRx : AcceptReceiver) : Prop :=
  (∃ dstTaberna, reader.waiters.lookup id = some (.message dstTaberna acceptRx)) ∨
    ∃ pending, reader.waiters.lookup id = some (.blobAccept pending) ∧ pending.acceptRx = acceptRx

theorem Reader.listed_of_unshadowed (reader : Reader) {id : PeerMessageId}
    (unshadowed : (reader.waiters.lookup id).all (fun waiter => waiter.acceptRx.isNone) = true) :
    reader.listed id = none := by
  cases found : reader.waiters.lookup id with
  | none => exact listed_of_absent found
  | some waiter =>
    rw [found, all_some] at unshadowed
    rw [listed_of_waiter found]
    cases waiter <;> first | rfl | cases unshadowed

/-- The answer that the work on a request comes to. -/
def HandPhase.answer : HandPhase → Option Answer
  | .releasing answer | .answering answer => some answer
  | _ => none

namespace Reception

def Cleared (state : Reception) : Prop :=
  ∀ id ∈ state.reservations.keys,
    (state.requests.lookup id).isNone = true ∧ (state.streams.lookup id).isNone = true

def Unshadowed (state : Reception) (callis : CallisId) (id : PeerMessageId) : Prop :=
  ((state.readers.lookup callis).all fun reader =>
    (reader.waiters.lookup id).all fun waiter => waiter.acceptRx.isNone) = true

/-- A frame does not displace the original waiter of its id, the work on a request goes through, and
the tables are cleared only when no reservation belongs to them. -/
def Undisturbed (state : Reception) : Label → Prop
  | .receive callis arrival => state.Unshadowed callis arrival.peerMsgId
  | .hand callis input =>
    ∀ reader ∈ state.readers.lookup callis, ∀ hand ∈ reader.hand, state.Completes hand input
  | .cleanup index =>
    (state.cleanups[index]?).bind List.head? = some .clearTables → state.Cleared
  | _ => True

instance (state : Reception) : Decidable state.Cleared := by
  unfold Cleared
  infer_instance

instance (state : Reception) (callis : CallisId) (id : PeerMessageId) :
    Decidable (state.Unshadowed callis id) := by
  unfold Unshadowed
  infer_instance

instance (state : Reception) (label : Label) : Decidable (state.Undisturbed label) := by
  unfold Undisturbed
  split <;> infer_instance

theorem kept_new (sendQueueSize : Nat) : (new sendQueueSize).Kept where
  pending id isPending := by simp [new] at isPending
  reserved id isReserved := by simp [new, reservations, BlobManager.new] at isReserved
  requested id isRequested := by simp [new, requests, BlobManager.new] at isRequested
  apart callis reader hand found := by simp [new] at found

/-- What a step does about the requests: work of one loop, a section of a clean-up, or neither. -/
inductive Acts (state : Reception) (label : Label) (next : Reception) : Prop where
  | works {callis : CallisId} {id : PeerMessageId} (works : Works state next callis id)
      (running : ∀ reader, state.readers.lookup callis = some reader → reader.ended = true →
        reader.hand ≠ none)
  | flags {callis : CallisId} {changed : Reader} (turned : next = state.setReader callis changed)
      (same : state.readers.lookup callis = none ∧ changed = .new ∨
        ∃ reader, state.idleReader callis = some reader ∧ changed.waiters = reader.waiters ∧
          changed.hand = reader.hand)
      (ends : changed.ended = true → changed.waiters.entries = [] ∨
        ∃ reason, label = .failFrame callis reason)
  | outside {started : List (List CleanupOp)} (readers : next.readers = state.readers)
      (blob : next.blob = state.blob) (begun : next.begun = state.begun)
      (pending : ∀ id, (next.dedupe.pending.lookup id).isSome →
        (state.dedupe.pending.lookup id).isSome)
      (cleanups : next.cleanups = state.cleanups ++ started)
  | cleans {index : Nat} {op : CleanupOp} {rest : List CleanupOp}
      (isLabel : label = .cleanup index) (due : state.cleanups[index]? = some (op :: rest))
      (cleaned : next = { (state.cleanupStep op).2 with
        cleanups := (state.cleanupStep op).2.cleanups.set index
          ((state.cleanupStep op).1 ++ rest) })

/-- A clean-up only changes the tables of the blob manager. -/
theorem cleanupStep_eq (state : Reception) (op : CleanupOp) :
    ∃ blob, (state.cleanupStep op).2 = state.setBlob blob := by
  cases op with
  | failPending streamId | dropPending streamId =>
    unfold Reception.cleanupStep
    dsimp only
    split
    · exact ⟨_, rfl⟩
    · exact ⟨state.blob, rfl⟩
  | _ => exact ⟨_, rfl⟩

section Step

variable {state next : Reception} {label : Label}

theorem running_of_idle {callis : CallisId} {reader : Reader}
    (idle : state.idleReader callis = some reader) :
    ∀ other, state.readers.lookup callis = some other → other.ended = true → other.hand ≠ none := by
  intro other isOther ended
  obtain ⟨found, running, _⟩ := idleReader_eq_some idle
  cases found.symm.trans isOther
  cases running.symm.trans ended

theorem Kept.acts (kept : state.Kept) (stepped : state.step label = some next)
    (undisturbed : state.Undisturbed label) : Acts state label next := by
  cases label with
  | «open» callis =>
    obtain ⟨isNew, ⟨⟩⟩ := ite_none_left_eq_some.mp stepped
    exact .flags rfl (.inl ⟨by simpa using isNew, rfl⟩) nofun
  | receive callis arrival =>
    obtain ⟨reader, idle, work⟩ := bind_eq_some_iff.mp stepped
    obtain ⟨_, ⟨⟩⟩ := ite_none_right_eq_some.mp work
    obtain ⟨found, _, free⟩ := idleReader_eq_some idle
    have unshadowed : state.Unshadowed callis arrival.peerMsgId := undisturbed
    rw [Unshadowed, found, all_some] at unshadowed
    exact .works (works_receive found free arrival (reader.listed_of_unshadowed unshadowed))
      (running_of_idle idle)
  | decide acceptRx decision =>
    obtain ⟨_, ⟨⟩⟩ := ite_none_right_eq_some.mp stepped
    exact .outside rfl rfl rfl (fun _ same => same) (append_nil _).symm
  | drain callis id sendQueueSize =>
    obtain ⟨reader, idle, work⟩ := bind_eq_some_iff.mp stepped
    obtain ⟨found, _, free⟩ := idleReader_eq_some idle
    exact .works (works_drain found free work) (running_of_idle idle)
  | hand callis input =>
    obtain ⟨reader, found, work⟩ := bind_eq_some_iff.mp stepped
    obtain ⟨hand, isHand, rfl⟩ := map_eq_some_iff.mp work
    refine .works (works_handStep found isHand (kept.apart callis reader hand found isHand) input
      (undisturbed reader found hand isHand)) fun other isOther _ => ?_
    cases found.symm.trans isOther
    simp [isHand]
  | close callis reason =>
    obtain ⟨reader, idle, rfl⟩ := map_eq_some_iff.mp stepped
    refine .flags rfl (.inr ⟨reader, idle, by simp, by simp⟩) fun ended => ?_
    rw [Reader.ended_recordCancelReason, (idleReader_eq_some idle).2.1] at ended
    cases ended
  | cancel callis id sendQueueSize =>
    obtain ⟨reader, idle, work⟩ := bind_eq_some_iff.mp stepped
    obtain ⟨_, cancelled⟩ := ite_none_right_eq_some.mp work
    obtain ⟨found, _, free⟩ := idleReader_eq_some idle
    exact .works (works_cancel found free cancelled) (running_of_idle idle)
  | exit callis =>
    obtain ⟨reader, idle, work⟩ := bind_eq_some_iff.mp stepped
    obtain ⟨⟨_, empty⟩, ⟨⟩⟩ := ite_none_right_eq_some.mp work
    exact .flags rfl (.inr ⟨reader, idle, rfl, rfl⟩) fun _ => .inl empty
  | failFrame callis reason =>
    obtain ⟨reader, idle, work⟩ := bind_eq_some_iff.mp stepped
    obtain ⟨_, ⟨⟩⟩ := ite_none_right_eq_some.mp work
    exact .flags rfl (.inr ⟨reader, idle, by simp, by simp⟩) fun _ => .inr ⟨reason, rfl⟩
  | clearDedupe =>
    cases stepped
    exact .outside rfl rfl rfl (by simp [DedupeState.clear]) (append_nil _).symm
  | startCleanup cleanup =>
    cases stepped
    exact .outside rfl rfl rfl (fun _ same => same) rfl
  | cleanup index =>
    obtain ⟨ops, due, work⟩ := bind_eq_some_iff.mp stepped
    cases ops with
    | nil => cases work
    | cons op rest =>
      cases work
      exact .cleans rfl due rfl

theorem Kept.step (kept : state.Kept) (stepped : state.step label = some next)
    (undisturbed : state.Undisturbed label) : next.Kept := by
  cases kept.acts stepped undisturbed with
  | works works => exact kept.works works
  | flags turned same =>
    rw [turned]
    refine kept.sameWork (.setReader (same.imp_right ?_))
    rintro ⟨reader, idle, waiters, hand⟩
    exact ⟨reader, (idleReader_eq_some idle).1, waiters, hand⟩
  | outside readers blob begun pending cleanups =>
    have requests : next.requests = state.requests := by rw [requests, blob, requests]
    have work : SameWork state.readers next.readers := readers ▸ .refl _
    refine kept.congr pending begun work (fun id isReserved => ?_) fun id same => requests ▸ same
    refine ⟨?_, Held.mono (work.keeps id) ?_ (fun same => requests ▸ same) ?_⟩
    · rwa [reservations, blob] at isReserved
    · rw [streams, streams, blob]
      exact fun same => same
    · rintro ⟨ops, listed, release⟩
      exact ⟨ops, cleanups ▸ mem_append_left _ listed, release⟩
  | cleans isLabel due cleaned =>
    rw [cleaned]
    refine kept.cleanupStep due fun isClear id isReserved => ?_
    subst isClear isLabel
    have cleared := undisturbed (by rw [due]; rfl)
    obtain ⟨request, stream⟩ := cleared id (AList.lookup_isSome.mp isReserved)
    exact ⟨isNone_iff_eq_none.mp request, isNone_iff_eq_none.mp stream⟩

theorem kept_reachable {sendQueueSize : Nat}
    (reached : ((system sendQueueSize).restrict Undisturbed).Reachable state) : state.Kept := by
  refine reached.invariant ?_ ?_
  · rintro _ rfl
    exact kept_new sendQueueSize
  · rintro _ _ _ kept ⟨stepped, undisturbed⟩
    exact kept.step stepped undisturbed

end Step

def Addressed (state : Reception) : Prop :=
  ∀ id, ∀ sender ∈ state.dedupe.waiters id, sender < state.duplicates.length

structure Resolved (state next : Reception) (id : PeerMessageId) (decision : DedupeDecision) :
    Prop where
  done : next.dedupe.pending.lookup id = none
  duplicates : ∀ sender ∈ state.dedupe.waiters id, next.duplicates[sender]? = some (some decision)

section Duplicates

variable {state next : Reception}
variable {id : PeerMessageId} {callis : CallisId} {reader : Reader} {sendQueueSize : Nat}

theorem waiters_of_pending {dedupe after : DedupeState}
    (pending : ∀ other, after.pending.lookup other =
      if other = id then none else dedupe.pending.lookup other)
    (other : PeerMessageId) : after.waiters other ⊆ dedupe.waiters other := by
  unfold DedupeState.waiters
  rw [pending]
  split
  · exact nil_subset _
  · exact List.Subset.refl _

theorem Addressed.of_subset (addressed : state.Addressed)
    (waiters : ∀ id, next.dedupe.waiters id ⊆ state.dedupe.waiters id)
    (duplicates : next.duplicates.length = state.duplicates.length) : next.Addressed := by
  intro id sender listed
  rw [duplicates]
  exact addressed id sender (waiters id listed)

theorem Addressed.reply (addressed : state.Addressed) (sendQueueSize : Nat) (id : PeerMessageId)
    (result : Except AureliaError Unit) : (state.reply sendQueueSize id result).Addressed :=
  addressed.of_subset (waiters_of_pending (pending_reply state sendQueueSize id result))
    length_mapIdx

theorem Addressed.cancelId (addressed : state.Addressed) (sendQueueSize : Nat)
    (id : PeerMessageId) (reason : CancelReason) :
    (state.cancelId sendQueueSize id reason).Addressed := by
  refine addressed.of_subset
    (waiters_of_pending (pending_cancelId state sendQueueSize id reason)) ?_
  unfold Reception.cancelId
  split <;> exact length_mapIdx

theorem Addressed.receive (addressed : state.Addressed) (callis : CallisId) (reader : Reader)
    (arrival : Arrival) : (state.receive callis reader arrival).Addressed := by
  unfold Reception.receive
  dsimp only
  split
  · exact addressed
  · rcases state.dedupe.dedupeBegin_cases arrival.peerMsgId state.duplicates.length with
      ⟨_, begins⟩ | ⟨waiting, _, joined, begins⟩ | ⟨_, _, begins⟩
    · rw [begins]
      exact addressed
    · rw [begins]
      intro id sender listed
      change sender < (state.duplicates ++ [none]).length
      rw [length_append, length_singleton]
      change sender ∈ ((AList.insert arrival.peerMsgId (waiting ++ [state.duplicates.length])
        state.dedupe.pending).lookup id).getD [] at listed
      rw [HashMap.lookup_insert_eq] at listed
      split at listed
      · rcases mem_append.mp listed with earlier | last
        · have isWaiting : sender ∈ state.dedupe.waiters arrival.peerMsgId := by
            rw [DedupeState.waiters, joined]
            exact earlier
          exact Nat.lt_succ_of_lt (addressed _ sender isWaiting)
        · rw [mem_singleton.mp last]
          exact Nat.lt_succ_self _
      · exact Nat.lt_succ_of_lt (addressed id sender listed)
    · rw [begins]
      intro id sender listed
      change sender ∈ ((AList.insert arrival.peerMsgId [] state.dedupe.pending).lookup id).getD []
        at listed
      rw [HashMap.lookup_insert_eq] at listed
      split at listed
      · cases listed
      · exact addressed id sender listed

/-- Up to the answer, the work on a request leaves the dedupe state alone and the original with the
loop. -/
theorem handStep_keeps {hand : Hand} (unanswered : ∀ answer, hand.phase ≠ .answering answer)
    (input : HandInput) : ∃ middle changed,
      state.handStep callis reader hand input = setReader middle callis changed ∧
      middle.dedupe = state.dedupe ∧ middle.duplicates = state.duplicates ∧
      changed.Original hand.peerMsgId hand.pending.acceptRx := by
  have holds (middle : Reception) (phase : HandPhase) (dedupe : middle.dedupe = state.dedupe)
      (duplicates : middle.duplicates = state.duplicates) : ∃ before changed,
        middle.setHand callis reader hand phase = setReader before callis changed ∧
        before.dedupe = state.dedupe ∧ before.duplicates = state.duplicates ∧
        changed.Original hand.peerMsgId hand.pending.acceptRx :=
    ⟨middle, _, rfl, dedupe, duplicates, _, .inr ⟨_, rfl, rfl, rfl⟩⟩
  have lists (middle : Reception) (waiter : InboundWaiter) (stage : Stage)
      (holding : waiter.holding = some (hand.pending.acceptRx, stage))
      (dedupe : middle.dedupe = state.dedupe) (duplicates : middle.duplicates = state.duplicates) :
        ∃ before changed, middle.insertWaiter callis reader hand waiter =
            setReader before callis changed ∧
          before.dedupe = state.dedupe ∧ before.duplicates = state.duplicates ∧
          changed.Original hand.peerMsgId hand.pending.acceptRx :=
    ⟨middle, _, rfl, dedupe, duplicates, stage,
      .inl ((Reader.listed_of_waiter (AList.lookup_insert _)).trans holding)⟩
  have drops (answer : Answer) : ∃ before changed,
      state.dropRequest callis reader hand.peerMsgId hand.pending answer =
        setReader before callis changed ∧
      before.dedupe = state.dedupe ∧ before.duplicates = state.duplicates ∧
      changed.Original hand.peerMsgId hand.pending.acceptRx :=
    ⟨_, _, rfl, rfl, rfl, _, .inr ⟨_, rfl, rfl, rfl⟩⟩
  unfold Reception.handStep
  dsimp only
  split
  · split_ifs
    · split
      · exact holds _ _ rfl rfl
      · exact lists _ _ .idle rfl rfl rfl
    · exact holds _ _ rfl rfl
    · split <;> exact holds _ _ rfl rfl
  · split
    · exact holds _ _ rfl rfl
    · exact lists _ _ .gripping rfl rfl rfl
  · split_ifs
    · exact drops _
    · exact holds _ _ rfl rfl
    · split
      · exact holds _ _ rfl rfl
      · exact lists _ _ .waiting rfl rfl rfl
  · split_ifs
    · exact drops _
    · exact holds _ _ rfl rfl
    · exact lists _ _ .waiting rfl rfl rfl
  · split <;> exact holds _ _ rfl rfl
  · split <;> exact holds _ _ rfl rfl
  · exact holds _ _ rfl rfl
  · exact absurd ‹_› (unanswered _)

theorem Addressed.handStep (addressed : state.Addressed) (hand : Hand) (input : HandInput) :
    (state.handStep callis reader hand input).Addressed := by
  by_cases unanswered : ∀ answer, hand.phase ≠ .answering answer
  · obtain ⟨middle, changed, works, dedupe, duplicates, _⟩ := @handStep_keeps state callis reader
      hand unanswered input
    rw [works]
    exact addressed.of_subset (fun id => dedupe ▸ List.Subset.refl _) (congrArg length duplicates)
  · push Not at unanswered
    obtain ⟨answer, phase⟩ := unanswered
    simp only [Reception.handStep, phase]
    cases answer with
    | reply result => exact addressed.reply input.sendQueueSize hand.peerMsgId result
    | cancelled reason =>
      refine Addressed.cancelId ?_ input.sendQueueSize hand.peerMsgId reason
      exact addressed

theorem Addressed.drain (addressed : state.Addressed)
    (drained : state.drain callis reader id sendQueueSize = some next) : next.Addressed := by
  obtain ⟨waiter, _, work⟩ := bind_eq_some_iff.mp drained
  cases waiter with
  | message dstTaberna acceptRx =>
    obtain ⟨decision, _, rfl⟩ := map_eq_some_iff.mp work
    exact addressed.reply sendQueueSize id _
  | blobAccept pending =>
    obtain ⟨decision, _, rfl⟩ := map_eq_some_iff.mp work
    split <;> exact addressed
  | blobCallis pending deadline =>
    cases work
    exact addressed
  | duplicate decisionRx =>
    dsimp only at work
    split at work
    · cases work
      exact addressed
    · obtain ⟨_, ⟨⟩⟩ := ite_none_left_eq_some.mp work
      exact addressed

theorem Addressed.step (addressed : state.Addressed) {label : Label}
    (stepped : state.step label = some next) : next.Addressed := by
  cases label with
  | «open» callis =>
    obtain ⟨_, ⟨⟩⟩ := ite_none_left_eq_some.mp stepped
    exact addressed
  | receive callis arrival =>
    obtain ⟨reader, _, work⟩ := bind_eq_some_iff.mp stepped
    obtain ⟨_, ⟨⟩⟩ := ite_none_right_eq_some.mp work
    exact addressed.receive callis reader arrival
  | decide acceptRx decision =>
    obtain ⟨_, ⟨⟩⟩ := ite_none_right_eq_some.mp stepped
    exact addressed
  | drain callis id sendQueueSize =>
    obtain ⟨reader, _, work⟩ := bind_eq_some_iff.mp stepped
    exact addressed.drain work
  | hand callis input =>
    obtain ⟨reader, _, work⟩ := bind_eq_some_iff.mp stepped
    obtain ⟨hand, _, rfl⟩ := map_eq_some_iff.mp work
    exact addressed.handStep hand input
  | close callis reason =>
    obtain ⟨reader, _, rfl⟩ := map_eq_some_iff.mp stepped
    exact addressed
  | cancel callis id sendQueueSize =>
    obtain ⟨reader, _, work⟩ := bind_eq_some_iff.mp stepped
    obtain ⟨_, cancelled⟩ := ite_none_right_eq_some.mp work
    obtain ⟨waiter, _, rfl⟩ := map_eq_some_iff.mp cancelled
    cases waiter with
    | message dstTaberna acceptRx =>
      refine Addressed.cancelId ?_ sendQueueSize id reader.cancelReason
      exact addressed
    | _ => exact addressed
  | exit callis | failFrame callis reason =>
    obtain ⟨reader, _, work⟩ := bind_eq_some_iff.mp stepped
    obtain ⟨_, ⟨⟩⟩ := ite_none_right_eq_some.mp work
    exact addressed
  | clearDedupe =>
    cases stepped
    intro id sender listed
    simp [DedupeState.clear, DedupeState.waiters] at listed
  | startCleanup cleanup =>
    cases stepped
    exact addressed
  | cleanup index =>
    obtain ⟨ops, _, work⟩ := bind_eq_some_iff.mp stepped
    cases ops with
    | nil => cases work
    | cons op rest =>
      obtain ⟨blob, cleaned⟩ := cleanupStep_eq state op
      simp only [cleaned] at work
      cases work
      exact addressed

theorem addressed_reachable
    (reached : (system sendQueueSize).Reachable state) : state.Addressed := by
  refine reached.invariant ?_ ?_
  · rintro _ rfl id _ listed
    simp [new, DedupeState.waiters] at listed
  · rintro _ _ _ addressed stepped
    exact addressed.step stepped

theorem getElem?_resolve {senders : List DecisionSender} {sender : DecisionSender}
    (listed : sender ∈ senders) (bound : sender < state.duplicates.length)
    (decision : DedupeDecision) :
    (state.resolve (senders.map fun sender => (sender, decision))).duplicates[sender]? =
      some (some decision) := by
  change (state.duplicates.mapIdx _)[sender]? = _
  rw [getElem?_mapIdx, getElem?_eq_getElem bound, map_some,
    Net.Inbound.resolution_map, if_pos listed]

section Resolving

variable {middle : Reception} (addressed : state.Addressed) (dedupe : middle.dedupe = state.dedupe)
  (duplicates : middle.duplicates = state.duplicates) (sendQueueSize : Nat) (id : PeerMessageId)

include addressed dedupe duplicates

theorem Addressed.resolved_reply (result : Except AureliaError Unit) :
    Resolved state (middle.reply sendQueueSize id result) id (DedupeState.decisionOf result) where
  done := (pending_reply ..).trans (if_pos rfl)
  duplicates sender listed :=
    getElem?_resolve (dedupe ▸ listed) (duplicates ▸ addressed id sender listed) _

theorem Addressed.resolved_cancelId (reason : CancelReason) :
    ∃ decision, Resolved state (middle.cancelId sendQueueSize id reason) id decision := by
  have done := (pending_cancelId middle sendQueueSize id reason id).trans (if_pos rfl)
  have reaches (sender : DecisionSender) (listed : sender ∈ state.dedupe.waiters id)
      (decision : DedupeDecision) := getElem?_resolve (dedupe.symm ▸ listed)
    (duplicates.symm ▸ addressed id sender listed) decision
  unfold Reception.cancelId at done ⊢
  split
  · rename_i error
    rw [if_pos error] at done
    exact ⟨_, done, fun sender listed => reaches sender listed _⟩
  · rename_i abandon
    rw [if_neg abandon] at done
    exact ⟨_, done, fun sender listed => reaches sender listed _⟩

end Resolving

end Duplicates

section Work

variable {state : Reception} (addressed : state.Addressed) {callis : CallisId} {reader : Reader}

include addressed

/-- A decision that is there is collected.  A decision on a message goes to every duplicate at
once; a blob request is taken into the hand, with the answer if it was rejected. -/
theorem Addressed.collects (idle : state.idleReader callis = some reader) {id : PeerMessageId}
    {acceptRx : AcceptReceiver} (awaits : reader.Awaits id acceptRx) {decision : AcceptDecision}
    (decided : state.decisionOn acceptRx = some decision) (sendQueueSize : Nat) :
    ∃ next, state.step (.drain callis id sendQueueSize) = some next ∧
      (Resolved state next id (DedupeState.decisionOf (Net.acceptResult decision)) ∨
        ∃ changed hand, next.readers.lookup callis = some changed ∧ changed.hand = some hand ∧
          hand.peerMsgId = id ∧ hand.pending.acceptRx = acceptRx ∧
          (decision = .accepted ∨
            hand.phase.answer = some (.reply (Net.acceptResult decision)))) := by
  have drains : state.step (.drain callis id sendQueueSize) =
      state.drain callis reader id sendQueueSize := by
    change (state.idleReader callis).bind _ = _
    rw [idle]
    rfl
  rw [drains]
  unfold Reception.drain
  rcases awaits with ⟨_, listed⟩ | ⟨_, listed, rfl⟩
  · simp only [listed, bind_some, decided, map_some]
    refine ⟨_, rfl, .inl ?_⟩
    apply addressed.resolved_reply <;> rfl
  · simp only [listed, bind_some, decided, map_some]
    refine ⟨_, rfl, .inr ?_⟩
    split
    · rename_i accepted
      exact ⟨_, _, (lookup_setReader ..).trans (if_pos rfl), rfl, rfl, rfl, .inl accepted⟩
    · exact ⟨_, _, (lookup_setReader ..).trans (if_pos rfl), rfl, rfl, rfl, .inr rfl⟩

theorem Addressed.works (found : state.readers.lookup callis = some reader) {hand : Hand}
    (isHand : reader.hand = some hand) (input : HandInput) :
    ∃ next, state.step (.hand callis input) = some next ∧
      ((∃ changed, next.readers.lookup callis = some changed ∧
          changed.Original hand.peerMsgId hand.pending.acceptRx) ∨
        ∃ decision, Resolved state next hand.peerMsgId decision) ∧
      ∀ result, hand.phase.answer = some (.reply result) →
        (∃ changed later, next.readers.lookup callis = some changed ∧ changed.hand = some later ∧
          later.peerMsgId = hand.peerMsgId ∧ later.phase.answer = some (.reply result)) ∨
        Resolved state next hand.peerMsgId (DedupeState.decisionOf result) := by
  have works : state.step (.hand callis input) =
      some (state.handStep callis reader hand input) := by
    change (state.readers.lookup callis).bind _ = _
    rw [found, bind_some, isHand]
    rfl
  refine ⟨_, works, ?_⟩
  by_cases unanswered : ∀ answer, hand.phase ≠ .answering answer
  · refine ⟨.inl ?_, fun result answer => .inl ?_⟩
    · obtain ⟨middle, changed, same, _, _, original⟩ := @handStep_keeps state callis reader hand
        unanswered input
      rw [same]
      exact ⟨changed, (lookup_setReader ..).trans (if_pos rfl), original⟩
    · cases phase : hand.phase with
      | releasing pending =>
        rw [phase] at answer
        cases answer
        simp only [Reception.handStep, phase]
        exact ⟨_, _, (lookup_setReader ..).trans (if_pos rfl), rfl, rfl, rfl⟩
      | answering pending => exact absurd phase (unanswered pending)
      | _ => rw [phase] at answer; cases answer
  · push Not at unanswered
    obtain ⟨answer, phase⟩ := unanswered
    simp only [Reception.handStep, phase]
    cases answer with
    | reply result =>
      have resolved : Resolved state ((state.setReader callis { reader with hand := none }).reply
          input.sendQueueSize hand.peerMsgId result) hand.peerMsgId
          (DedupeState.decisionOf result) := by
        apply addressed.resolved_reply <;> rfl
      refine ⟨.inr ⟨_, resolved⟩, ?_⟩
      rintro _ ⟨⟩
      exact .inr resolved
    | cancelled reason =>
      refine ⟨.inr ?_, nofun⟩
      apply addressed.resolved_cancelId <;> rfl

end Work

/-- The loop that receives an id first keeps its original waiter while the id is pending: the
decision on it is collected, the work on a blob request goes on until its duplicates are answered,
a rejected one with the decision, and every reservation is held. -/
theorem original_waiter_kept {sendQueueSize : Nat} {state : Reception}
    (reached : ((system sendQueueSize).restrict Undisturbed).Reachable state) :
    (∀ id callis acceptRx reader, (state.dedupe.pending.lookup id).isSome →
      state.begun.lookup id = some (callis, acceptRx) →
      state.readers.lookup callis = some reader → reader.Original id acceptRx) ∧
    (∀ callis reader id acceptRx decision queueSize, state.idleReader callis = some reader →
      reader.Awaits id acceptRx → state.decisionOn acceptRx = some decision →
      ∃ next, state.step (.drain callis id queueSize) = some next ∧
        (Resolved state next id (DedupeState.decisionOf (Net.acceptResult decision)) ∨
          ∃ changed hand, next.readers.lookup callis = some changed ∧ changed.hand = some hand ∧
            hand.peerMsgId = id ∧ hand.pending.acceptRx = acceptRx ∧
            (decision = .accepted ∨
              hand.phase.answer = some (.reply (Net.acceptResult decision))))) ∧
    (∀ callis reader hand input, state.readers.lookup callis = some reader →
      reader.hand = some hand →
      ∃ next, state.step (.hand callis input) = some next ∧
        ((∃ changed, next.readers.lookup callis = some changed ∧
            changed.Original hand.peerMsgId hand.pending.acceptRx) ∨
          ∃ decision, Resolved state next hand.peerMsgId decision) ∧
        ∀ result, hand.phase.answer = some (.reply result) →
          (∃ changed later, next.readers.lookup callis = some changed ∧
            changed.hand = some later ∧ later.peerMsgId = hand.peerMsgId ∧
            later.phase.answer = some (.reply result)) ∨
          Resolved state next hand.peerMsgId (DedupeState.decisionOf result)) ∧
    ∀ id, (state.reservations.lookup id).isSome → state.Held id := by
  have kept := kept_reachable reached
  have addressed := addressed_reachable reached.of_restrict
  refine ⟨?_, ?_, ?_, kept.reserved⟩
  · intro id callis acceptRx reader isPending begun found
    obtain ⟨_, _, _, isBegun, isHolder, original⟩ := kept.pending id isPending
    obtain ⟨⟨⟩⟩ := some.inj (begun.symm.trans isBegun)
    cases found.symm.trans isHolder
    exact original
  · intro callis reader id acceptRx decision queueSize idle awaits decided
    exact addressed.collects idle awaits decided queueSize
  · intro callis reader hand input found isHand
    exact addressed.works found isHand input

def arriving (blob : Bool) (id : PeerMessageId) : Arrival :=
  ⟨id, blob, 2, false, true, some 10, 100, .ok ()⟩

/-- What a loop meets where nothing goes wrong. -/
def smooth : HandInput := ⟨true, false, .ok (), none, 0, 1, 4⟩

/-- A message arrives once on each of two callis, and the first loop keeps its waiter. -/
theorem original_waiter_kept_twice :
    ∃ state reader, ((system 4).restrict Undisturbed).Reachable state ∧
      (state.dedupe.pending.lookup 7).isSome ∧ state.begun.lookup 7 = some (1, 0) ∧
      state.readers.lookup 1 = some reader ∧ reader.Original 7 0 := by
  obtain ⟨state, reached, isPending, begun, present⟩ :
      ∃ state, ((system 4).restrict Undisturbed).Reachable state ∧
        (state.dedupe.pending.lookup 7).isSome ∧ state.begun.lookup 7 = some (1, 0) ∧
        (state.readers.lookup 1).isSome :=
    Machine.System.exists_guarded [.open 1, .open 2, .receive 1 (arriving false 7),
      .receive 2 (arriving false 7), .hand 1 smooth] rfl (by decide)
  obtain ⟨reader, found⟩ := isSome_iff_exists.mp present
  exact ⟨state, reader, reached, isPending, begun, found,
    (original_waiter_kept reached).1 7 1 0 reader isPending begun found⟩

/-- A copy on the same callis displaces the original waiter: the taberna has decided, and the loop
does not collect the decision. -/
theorem copy_displaces_original :
    ∃ state reader, (system 4).Reachable state ∧
      (state.dedupe.pending.lookup 7).isSome ∧ state.begun.lookup 7 = some (1, 0) ∧
      state.idleReader 1 = some reader ∧ state.decisionOn 0 = some .accepted ∧
      ¬reader.Original 7 0 ∧ ∀ queueSize, state.step (.drain 1 7 queueSize) = none := by
  obtain ⟨state, reached, isPending, begun, decided, undecided, waiting, present⟩ :
      ∃ state, (system 4).Reachable state ∧ (state.dedupe.pending.lookup 7).isSome ∧
        state.begun.lookup 7 = some (1, 0) ∧ state.decisionOn 0 = some .accepted ∧
        (state.duplicates[0]?).join = none ∧ 0 ∈ state.dedupe.waiters 7 ∧
        (state.idleReader 1).any (fun reader => decide (reader.hand.isNone ∧
          reader.waiters.lookup 7 = some (.duplicate 0))) = true :=
    Machine.System.exists_reachable [.open 1, .receive 1 (arriving false 7),
      .hand 1 smooth, .decide 0 .accepted, .receive 1 (arriving false 7)] rfl (by decide)
  obtain ⟨reader, idle, holds⟩ := (any_eq_true _ _).mp present
  obtain ⟨free, listed⟩ := of_decide_eq_true holds
  refine ⟨state, reader, reached, isPending, begun, idle, decided, ?_, fun queueSize => ?_⟩
  · simp [Reader.Original, Reader.Holds, Reader.listed, isNone_iff_eq_none.mp free, listed,
      InboundWaiter.holding]
  change (state.idleReader 1).bind _ = none
  rw [idle, bind_some]
  unfold drain
  simp only [listed, bind_some, undecided]
  exact if_pos waiting

end Reception

end AureliaPeering.Callis
