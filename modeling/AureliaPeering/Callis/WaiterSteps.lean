import AureliaPeering.Callis.Waiters

/-!
What each section of the work of a loop, and of a clean-up, leaves of the requests.

A section of a loop concerns one id.  `Move` says where the request of the id is before and after
it, and what becomes of its entries in the tables.
-/

namespace AureliaPeering.Callis

open Collections Session Blob AureliaPeering.Ring List Option
open Net (AcceptDecision InboundOutcome)

namespace Reception

structure SameTables (state next : Reception) (id : PeerMessageId) : Prop where
  streams : next.streams.lookup id = state.streams.lookup id
  requests : next.requests.lookup id = state.requests.lookup id
  reservations : next.reservations.lookup id = state.reservations.lookup id

/-- The request of an id passes to another stage.  If its bytes are reserved afterwards, the loop,
its pending request or its stream stands for them, or the loop did not stand for them before. -/
structure Passes (state next : Reception) (id : PeerMessageId) (before after : Stage) : Prop where
  pending : next.dedupe.pending.lookup id = state.dedupe.pending.lookup id
  begun : next.begun.lookup id = state.begun.lookup id
  reserved : after = .gripping ∨ next.reservations.lookup id = none ∨
    (next.streams.lookup id).isSome ∨ after = .waiting ∧ (next.requests.lookup id).isSome ∨
    before ≠ .gripping ∧ state.requests.lookup id = none ∧ SameTables state next id
  requested : after = .waiting ∨ next.requests.lookup id = none ∨
    before ≠ .waiting ∧ next.requests.lookup id = state.requests.lookup id

section Move

variable (state next : Reception) (callis : CallisId) (id : PeerMessageId)

/-- What a section of a loop does about the request of an id. -/
inductive Move : Option Holding → Option Holding → Prop where
  | stays {held : Option Holding}
      (pending : (next.dedupe.pending.lookup id).isSome → (state.dedupe.pending.lookup id).isSome)
      (begun : next.begun.lookup id = state.begun.lookup id) (tables : SameTables state next id) :
      Move held held
  | begins {acceptRx : AcceptReceiver} (begun : next.begun.lookup id = some (callis, acceptRx))
      (tables : SameTables state next id) : Move none (some (acceptRx, .idle))
  | passes {acceptRx : AcceptReceiver} {before after : Stage}
      (passes : Passes state next id before after) :
      Move (some (acceptRx, before)) (some (acceptRx, after))
  | answers {acceptRx : AcceptReceiver} (done : next.dedupe.pending.lookup id = none)
      (tables : SameTables state next id) : Move (some (acceptRx, .idle)) none

/-- A section of one loop that concerns one id. -/
def Works : Prop :=
  ∃ reader changed held left, Focus state next callis reader changed id ∧
    (changed.hand.isSome → changed.listed id = none) ∧ reader.held id = held ∧
    changed.held id = left ∧ Move state next callis id held left

end Move

section Kept

variable {state next : Reception} {callis : CallisId} {id : PeerMessageId}

theorem Kept.single (kept : state.Kept) {reader changed : Reader}
    (focus : Focus state next callis reader changed id) : reader.Single id := by
  refine ⟨focus.before, fun isSome => ?_⟩
  obtain ⟨hand, isHand⟩ := isSome_iff_exists.mp isSome
  rw [← focus.before hand isHand]
  exact kept.apart callis reader hand focus.found isHand

/-- What one loop does about one id leaves every request with its holder. -/
theorem Kept.works (kept : state.Kept) (works : Works state next callis id) : next.Kept := by
  obtain ⟨reader, changed, before, after, focus, absent, held, left, move⟩ := works
  have single := kept.single focus
  have single' : changed.Single id := ⟨focus.after, absent⟩
  have isReader := focus.reader_found
  have leaves {holding : Holding} (isLeft : after = some holding) : changed.Holds id holding :=
    (single'.holds_iff holding).mpr (left.trans isLeft)
  have had {holding : Holding} (holds : reader.Holds id holding) : before = some holding :=
    held.symm.trans ((single.holds_iff holding).mp holds)
  -- The loop did not stand for the reservation.
  have elsewhere (tables : SameTables state next id)
      (idle : ∀ acceptRx stage, before = some (acceptRx, stage) → stage ≠ .gripping ∧
        (stage = .waiting → state.requests.lookup id = none))
      (isReserved : (next.reservations.lookup id).isSome) : next.Held id := by
    rw [tables.reservations] at isReserved
    rcases kept.reserved id isReserved with stream | release | ⟨another, holder, found, holds⟩
    · exact .inl (tables.streams ▸ stream)
    · exact .inr (.inl (focus.cleanups ▸ release))
    · rcases focus.successor found with ⟨rfl, rfl⟩ | isHolder
      · rcases holds with ⟨_, grips⟩ | ⟨⟨_, waits⟩, isRequested⟩
        · exact absurd rfl (idle _ _ (had grips)).1
        · rw [(idle _ _ (had waits)).2 rfl] at isRequested
          cases isRequested
      · exact .inr (.inr ⟨another, holder, isHolder, by rwa [tables.requests]⟩)
  have wanted (idle : ∀ acceptRx, before ≠ some (acceptRx, .waiting))
      (requests : next.requests.lookup id = state.requests.lookup id)
      (isRequested : (next.requests.lookup id).isSome) : next.Wanted id := by
    rw [requests] at isRequested
    obtain ⟨another, holder, found, acceptRx, waits⟩ := kept.requested id isRequested
    rcases focus.successor found with ⟨rfl, rfl⟩ | isHolder
    · exact absurd (had waits) (idle acceptRx)
    · exact ⟨another, holder, isHolder, acceptRx, waits⟩
  cases move with
  | stays pending begun tables =>
    have keeps : Keeps state next id := focus.keeps fun holding holds => leaves (had holds)
    refine kept.focus focus (fun isPending => ?_) (fun isReserved => ?_) (fun isRequested => ?_)
      absent
    · exact (kept.pending id (pending isPending)).mono keeps begun
    · rw [tables.reservations] at isReserved
      exact (kept.reserved id isReserved).mono keeps (tables.streams ▸ fun same => same)
        (tables.requests ▸ fun same => same) (focus.cleanups ▸ fun same => same)
    · rw [tables.requests] at isRequested
      exact (kept.requested id isRequested).mono keeps
  | @begins acceptRx begun tables =>
    refine kept.focus focus (fun _ => ?_) (elsewhere tables nofun) (wanted nofun tables.requests)
      absent
    exact ⟨callis, acceptRx, changed, begun, isReader, .idle, leaves rfl⟩
  | @passes acceptRx _ _ passes =>
    refine kept.focus focus (fun isPending => ?_) (fun isReserved => ?_) (fun isRequested => ?_)
      absent
    · rw [passes.pending] at isPending
      obtain ⟨another, awaited, holder, isBegun, found, stage, holds⟩ := kept.pending id isPending
      refine ⟨another, awaited, ?_⟩
      rcases focus.successor found with ⟨rfl, rfl⟩ | isHolder
      · cases had holds
        exact ⟨changed, passes.begun.trans isBegun, isReader, _, leaves rfl⟩
      · exact ⟨holder, passes.begun.trans isBegun, isHolder, stage, holds⟩
    · rcases passes.reserved with rfl | released | stream | ⟨rfl, requested⟩ |
        ⟨free, unrequested, tables⟩
      · exact .inr (.inr ⟨callis, changed, isReader, .inl ⟨acceptRx, leaves rfl⟩⟩)
      · rw [released] at isReserved
        cases isReserved
      · exact .inl stream
      · exact .inr (.inr ⟨callis, changed, isReader, .inr ⟨⟨acceptRx, leaves rfl⟩, requested⟩⟩)
      · refine elsewhere tables ?_ isReserved
        rintro _ _ ⟨⟩
        exact ⟨free, fun _ => unrequested⟩
    · rcases passes.requested with rfl | removed | ⟨free, requests⟩
      · exact ⟨callis, changed, isReader, acceptRx, leaves rfl⟩
      · rw [removed] at isRequested
        cases isRequested
      · refine wanted ?_ requests isRequested
        rintro _ ⟨⟩
        exact free rfl
  | @answers acceptRx done tables =>
    refine kept.focus focus (by simp [done]) (elsewhere tables ?_) (wanted nofun tables.requests)
      absent
    rintro _ _ ⟨⟩
    exact ⟨nofun, nofun⟩

end Kept

def Activates (state : Reception) (hand : Hand) (input : HandInput) : Prop :=
  input.settings.isSome = true ∧ state.streams.lookup hand.peerMsgId = none

instance (state : Reception) (hand : Hand) (input : HandInput) :
    Decidable (state.Activates hand input) :=
  haveI : Decidable (state.streams.lookup hand.peerMsgId = none) :=
    decidable_of_iff _ Option.isNone_iff_eq_none
  inferInstanceAs (Decidable (_ ∧ _))

/-- The work on the request in hand goes through: no return that leaves the pending request or its
reservation behind. -/
def Completes (state : Reception) (hand : Hand) (input : HandInput) : Prop :=
  match hand.phase with
  | .accepted =>
    input.sessionActive = true →
      if input.hasCallis then state.Activates hand input else input.signalled.toBool = true
  | .waiting deadline => input.now < deadline → input.hasCallis = true → state.Activates hand input
  | .taken _ settings => (RingSize.new settings.chunkSize settings.ackWindowChunks).toBool = true
  | _ => True

instance (state : Reception) (hand : Hand) (input : HandInput) :
    Decidable (state.Completes hand input) := by
  unfold Completes
  split <;> infer_instance

@[simp] theorem done_reply (state : Reception) (sendQueueSize : Nat) (id : PeerMessageId)
    (result : Except AureliaError Unit) :
    (state.reply sendQueueSize id result).dedupe.pending.lookup id = none :=
  (pending_reply ..).trans (if_pos rfl)

@[simp] theorem done_cancelId (state : Reception) (sendQueueSize : Nat) (id : PeerMessageId)
    (reason : CancelReason) :
    (state.cancelId sendQueueSize id reason).dedupe.pending.lookup id = none :=
  (pending_cancelId ..).trans (if_pos rfl)

theorem sameTables_cancelId (state : Reception) (callis : CallisId) (changed : Reader)
    (sendQueueSize : Nat) (id : PeerMessageId) (reason : CancelReason) :
    SameTables state ((state.setReader callis changed).cancelId sendQueueSize id reason) id := by
  constructor <;> simp [streams, requests, reservations, setReader]

section Works

variable {state next : Reception} {callis : CallisId} {reader : Reader} {id : PeerMessageId}
  {sendQueueSize : Nat}

theorem passes_dropRequest (changed : Reader) (answer : Answer) :
    Passes state ((state.setBlob (state.blob.removePendingRequest id)).setReader callis changed) id
      .waiting (if (state.requests.lookup id).isSome then HandPhase.releasing answer
        else .answering answer).stage := by
  have removed : (state.requests.erase id).lookup id = none := AList.lookup_erase ..
  split
  · exact ⟨rfl, rfl, .inl rfl, .inr (.inl removed)⟩
  · rename_i unrequested
    have none : state.requests.lookup id = none := by simpa using unrequested
    exact ⟨rfl, rfl, .inr (.inr (.inr (.inr ⟨nofun, none, rfl, removed.trans none.symm, rfl⟩))),
      .inr (.inl removed)⟩

section Idle

variable (found : state.readers.lookup callis = some reader) (free : reader.hand = none)

include found free

theorem works_pushOutcome {dedupe : DedupeState} (same : dedupe = state.dedupe)
    (outcome : InboundOutcome) :
    Works state ({ state with dedupe }.pushOutcome outcome) callis id := by
  subst same
  refine ⟨reader, reader, _, _, ?_, by simp [free], rfl, rfl,
    .stays (fun same => same) rfl ⟨rfl, rfl, rfl⟩⟩
  exact {
    toLocal := (Local.refl state id).pushOutcome outcome
    found := found
    readers := lookup_same found
    ended := rfl
    waiters := fun _ _ => rfl
    before := by simp [free]
    after := by simp [free] }

theorem works_receive (arrival : Arrival) (undisplaced : reader.listed arrival.peerMsgId = none) :
    Works state (state.receive callis reader arrival) callis arrival.peerMsgId := by
  have nothing : reader.held arrival.peerMsgId = none :=
    (Reader.held_of_free free).trans undisplaced
  have same := Local.refl state arrival.peerMsgId
  unfold Reception.receive
  dsimp only
  split
  · exact works_pushOutcome found free rfl _
  · rcases state.dedupe.dedupeBegin_cases arrival.peerMsgId state.duplicates.length with
      ⟨_, begins⟩ | ⟨_, joined, isPending, begins⟩ | ⟨unrecorded, vacant, begins⟩
    · rw [begins]
      exact works_pushOutcome found free rfl _
    · rw [begins]
      refine ⟨reader, _, none, none, focus_setReader _
        { same with pending := fun _ apart => AList.lookup_insert_ne apart } found rfl rfl
        (fun _ apart => AList.lookup_insert_ne apart) (by simp [free]) (by simp [free]),
        by simp [free], nothing, ?_, .stays (fun _ => by simp [isPending]) rfl ⟨rfl, rfl, rfl⟩⟩
      simp [Reader.held, Reader.listed, free, InboundWaiter.holding]
    · rw [begins]
      refine ⟨reader, _, none, _, focus_setReader _ ?_ found rfl rfl (fun _ _ => rfl)
        (by simp [free]) (by simp), fun _ => undisplaced, nothing, rfl,
        .begins (AList.lookup_insert _) ⟨rfl, rfl, rfl⟩⟩
      exact { same with
        pending := fun _ apart => AList.lookup_insert_ne apart
        begun := fun _ apart => AList.lookup_insert_ne apart }

theorem focus_pop (id : PeerMessageId) (hand : Option Hand)
    (onId : ∀ held, hand = some held → held.peerMsgId = id)
    (here : Local state next id) (readers : next.readers = state.readers) :
    Focus state (next.setReader callis
      { reader with waiters := reader.waiters.erase id, hand }) callis reader
      { reader with waiters := reader.waiters.erase id, hand } id :=
  focus_setReader _ here found readers rfl
    (fun _ apart => AList.lookup_erase_ne apart) (by simp [free]) onId

omit found free in
theorem listed_erase (reader : Reader) (id : PeerMessageId) (hand : Option Hand) :
    Reader.listed { reader with waiters := reader.waiters.erase id, hand } id = none :=
  Reader.listed_of_absent (AList.lookup_erase ..)

omit found in
theorem held_erase (id : PeerMessageId) :
    Reader.held { reader with waiters := reader.waiters.erase id } id = none := by
  rw [Reader.held_of_free]
  · exact listed_erase reader id reader.hand
  · exact free

theorem works_drain (drained : state.drain callis reader id sendQueueSize = some next) :
    Works state next callis id := by
  obtain ⟨waiter, listed, work⟩ := bind_eq_some_iff.mp drained
  have popped := focus_pop found free id reader.hand (by simp [free]) (Local.refl state id) rfl
  have held := (Reader.held_of_free free).trans (Reader.listed_of_waiter listed)
  have left := held_erase free id
  -- The request passes to the hand, at the same stage.
  have pops {hand : Hand} (onId : hand.peerMsgId = id)
      (same : waiter.holding = some (hand.pending.acceptRx, hand.phase.stage)) :
      Works state (state.setReader callis
        { reader with waiters := reader.waiters.erase id, hand := some hand }) callis id :=
    ⟨reader, _, _, _,
      focus_pop found free id (some hand) (by simp [onId]) (Local.refl state id) rfl,
      fun _ => listed_erase .., held, same.symm, .stays (fun same => same) rfl ⟨rfl, rfl, rfl⟩⟩
  cases waiter with
  | message dstTaberna acceptRx =>
    obtain ⟨decision, _, rfl⟩ := map_eq_some_iff.mp work
    exact ⟨reader, _, _, _, popped.reply sendQueueSize _, fun _ => listed_erase .., held, left,
      .answers (done_reply ..) ⟨rfl, rfl, rfl⟩⟩
  | blobAccept pending =>
    obtain ⟨decision, _, rfl⟩ := map_eq_some_iff.mp work
    split
    · refine ⟨reader, _, _, _, focus_pop found free id (some _) (by simp)
        (.addPendingRequest state id _) rfl, fun _ => listed_erase .., held, rfl,
        .passes ⟨rfl, rfl, .inr (.inr (.inr (.inl ⟨rfl, ?_⟩))), .inl rfl⟩⟩
      exact isSome_iff_exists.mpr ⟨_, AList.lookup_insert _⟩
    · exact pops rfl rfl
  | blobCallis pending deadline =>
    cases work
    exact pops rfl rfl
  | duplicate decisionRx =>
    have passed (outcome : InboundOutcome) : Works state ((state.setReader callis
        { reader with waiters := reader.waiters.erase id }).pushOutcome outcome) callis id :=
      ⟨reader, _, _, _, popped.pushOutcome outcome, fun _ => listed_erase .., held, left,
        .stays (fun same => same) rfl ⟨rfl, rfl, rfl⟩⟩
    dsimp only at work
    split at work
    · cases work
      exact passed _
    · obtain ⟨_, ⟨⟩⟩ := ite_none_left_eq_some.mp work
      exact passed _

theorem works_cancel (cancelled : state.cancel callis reader id sendQueueSize = some next) :
    Works state next callis id := by
  obtain ⟨waiter, listed, rfl⟩ := map_eq_some_iff.mp cancelled
  have popped := focus_pop found free id reader.hand (by simp [free]) (Local.refl state id) rfl
  have held := (Reader.held_of_free free).trans (Reader.listed_of_waiter listed)
  have left := held_erase free id
  cases waiter with
  | message dstTaberna acceptRx =>
    exact ⟨reader, _, _, _, popped.cancelId sendQueueSize _, fun _ => listed_erase .., held, left,
      .answers (done_cancelId ..) (sameTables_cancelId ..)⟩
  | blobAccept pending =>
    exact ⟨reader, _, _, _, focus_pop found free id (some _) (by simp) (Local.refl state id) rfl,
      fun _ => listed_erase .., held, rfl, .stays (fun same => same) rfl ⟨rfl, rfl, rfl⟩⟩
  | blobCallis pending deadline =>
    exact ⟨reader, _, _, _, focus_pop found free id (some _) (by simp)
      (.removePendingRequest state id) rfl, fun _ => listed_erase .., held, rfl,
      .passes (passes_dropRequest _ _)⟩
  | duplicate decisionRx =>
    exact ⟨reader, _, _, _, popped, fun _ => listed_erase .., held, left,
      .stays (fun same => same) rfl ⟨rfl, rfl, rfl⟩⟩

end Idle

section Hand

variable {hand : Hand} (found : state.readers.lookup callis = some reader)
  (isHand : reader.hand = some hand) (absent : reader.listed hand.peerMsgId = none)

include found isHand

theorem focus_hand (changed : Option Hand)
    (onId : ∀ held, changed = some held → held.peerMsgId = hand.peerMsgId)
    (here : Local state next hand.peerMsgId) (readers : next.readers = state.readers) :
    Focus state (next.setReader callis { reader with hand := changed }) callis reader
      { reader with hand := changed } hand.peerMsgId := by
  refine focus_setReader _ here found readers rfl (fun _ _ => rfl) ?_ onId
  intro held same
  rw [isHand, some.injEq] at same
  rw [same]

theorem works_insertWaiter {middle : Reception} {waiter : InboundWaiter}
    (same : waiter.holding = some (hand.pending.acceptRx, hand.phase.stage))
    (here : middle = { state with decisions := middle.decisions }) :
    Works state (middle.insertWaiter callis reader hand waiter) callis hand.peerMsgId := by
  have lists : Local state middle hand.peerMsgId := by
    rw [here]
    exact { Local.refl state hand.peerMsgId with }
  refine ⟨reader, _, _, some (hand.pending.acceptRx, hand.phase.stage),
    focus_setReader _ lists found (by rw [here]) rfl
    (fun _ apart => AList.lookup_insert_ne apart) ?_ (by simp), by simp,
    Reader.held_of_hand isHand _, ?_, ?_⟩
  · intro _ isHeld
    rw [some.inj (isHand.symm.trans isHeld)]
  · exact (Reader.held_of_free rfl).trans
      ((Reader.listed_of_waiter (AList.lookup_insert _)).trans same)
  · rw [here]
    exact .stays (fun same => same) rfl ⟨rfl, rfl, rfl⟩

include absent

/-- The section changes the tables, and the request stays in hand. -/
theorem works_setHand {middle : Reception} {phase : HandPhase}
    (here : Local state middle hand.peerMsgId) (readers : middle.readers = state.readers)
    (move : Move state (middle.setHand callis reader hand phase) callis hand.peerMsgId
      (some (hand.pending.acceptRx, hand.phase.stage))
      (some (hand.pending.acceptRx, phase.stage))) :
    Works state (middle.setHand callis reader hand phase) callis hand.peerMsgId :=
  ⟨reader, _, _, _, focus_hand found isHand (some { hand with phase }) (by simp) here readers,
    fun _ => absent, Reader.held_of_hand isHand _, rfl, move⟩

/-- The section only reads. -/
theorem works_look {phase : HandPhase} (same : phase.stage = hand.phase.stage) :
    Works state (state.setHand callis reader hand phase) callis hand.peerMsgId := by
  refine works_setHand found isHand absent (Local.refl state _) rfl ?_
  rw [same]
  exact .stays (fun same => same) rfl ⟨rfl, rfl, rfl⟩

theorem works_dropRequest (answer : Answer) (waits : hand.phase.stage = .waiting) :
    Works state (state.dropRequest callis reader hand.peerMsgId hand.pending answer) callis
      hand.peerMsgId := by
  refine ⟨reader, _, _, _, focus_hand found isHand (some _) (by simp)
    (.removePendingRequest state _) rfl, fun _ => absent, Reader.held_of_hand isHand _, rfl, ?_⟩
  rw [waits]
  exact .passes (passes_dropRequest _ _)

theorem works_activate (input : HandInput) (activates : state.Activates hand input)
    (waits : hand.phase.stage = .waiting) :
    Works state (state.activate callis reader hand input.settings) callis hand.peerMsgId := by
  obtain ⟨settings, isSome⟩ := isSome_iff_exists.mp activates.1
  refine works_look found isHand absent ?_
  rw [isSome, waits]
  dsimp only
  rw [if_neg (by simp [activates.2])]
  rfl

theorem works_handStep (input : HandInput) (completes : state.Completes hand input) :
    Works state (state.handStep callis reader hand input) callis hand.peerMsgId := by
  unfold Completes at completes
  unfold Reception.handStep
  dsimp only
  split
  · rename_i arrival phase
    have idle : hand.phase.stage = .idle := by rw [phase]; rfl
    split_ifs
    · split
      · exact works_look found isHand absent idle.symm
      · exact works_insertWaiter found isHand (by rw [idle]; rfl) rfl
    · exact works_look found isHand absent idle.symm
    · split
      · exact works_look found isHand absent idle.symm
      · refine works_setHand found isHand absent (.reserveInbound state _ _) rfl ?_
        rw [idle]
        exact .passes ⟨rfl, rfl, .inl rfl, .inr (.inr ⟨nofun, rfl⟩)⟩
  · rename_i arrival phase
    have grips : hand.phase.stage = .gripping := by rw [phase]; rfl
    split
    · exact works_look found isHand absent grips.symm
    · exact works_insertWaiter found isHand (by rw [grips]; rfl) rfl
  · rename_i phase
    have waits : hand.phase.stage = .waiting := by rw [phase]; rfl
    rw [phase] at completes
    split_ifs with inactive hasCallis
    · exact works_dropRequest found isHand absent _ waits
    · have configured := completes (by simpa using inactive)
      rw [if_pos hasCallis] at configured
      exact works_activate found isHand absent input configured waits
    · have signalled := completes (by simpa using inactive)
      rw [if_neg hasCallis] at signalled
      split
      · rename_i failed
        rw [failed] at signalled
        cases signalled
      · exact works_insertWaiter found isHand (by rw [waits]; rfl) rfl
  · rename_i deadline phase
    have waits : hand.phase.stage = .waiting := by rw [phase]; rfl
    rw [phase] at completes
    split_ifs with late hasCallis
    · exact works_dropRequest found isHand absent _ waits
    · exact works_activate found isHand absent input
        (completes (Nat.lt_of_not_le late) hasCallis) waits
    · exact works_insertWaiter found isHand (by rw [waits]; rfl) rfl
  · rename_i settings phase
    have waits : hand.phase.stage = .waiting := by rw [phase]; rfl
    split
    · rename_i unrequested
      refine works_setHand found isHand absent (Local.refl state _) rfl ?_
      rw [waits]
      exact .passes ⟨rfl, rfl, .inr (.inr (.inr (.inr ⟨nofun, unrequested, rfl, rfl, rfl⟩))),
        .inr (.inl unrequested)⟩
    · refine works_setHand found isHand absent (.removePendingRequest state _) rfl ?_
      rw [waits]
      exact .passes ⟨rfl, rfl, .inl rfl, .inr (.inl (AList.lookup_erase ..))⟩
  · rename_i request settings phase
    have grips : hand.phase.stage = .gripping := by rw [phase]; rfl
    rw [phase] at completes
    split
    · rename_i failed
      dsimp only at completes
      rw [failed] at completes
      cases completes
    · refine works_setHand found isHand absent (.insertRecvStream state _ _) rfl ?_
      rw [grips]
      refine .passes ⟨rfl, rfl, .inr (.inr (.inl ?_)), .inr (.inr ⟨nofun, rfl⟩)⟩
      exact isSome_iff_exists.mpr ⟨_, AList.lookup_insert _⟩
  · rename_i answer phase
    have grips : hand.phase.stage = .gripping := by rw [phase]; rfl
    refine works_setHand found isHand absent (.releaseInbound state _) rfl ?_
    rw [grips]
    exact .passes ⟨rfl, rfl, .inr (.inl (AList.lookup_erase ..)), .inr (.inr ⟨nofun, rfl⟩)⟩
  · rename_i answer phase
    have held := Reader.held_of_hand isHand hand.peerMsgId
    rw [phase] at held
    have left : Reader.held { reader with hand := none } hand.peerMsgId = none :=
      (Reader.held_of_free rfl).trans absent
    have freed := focus_hand found isHand none (by simp) (Local.refl state _) rfl
    split
    · exact ⟨reader, _, _, _, freed.reply input.sendQueueSize _, by simp, held, left,
        .answers (done_reply ..) ⟨rfl, rfl, rfl⟩⟩
    · exact ⟨reader, _, _, _, freed.cancelId input.sendQueueSize _, by simp, held, left,
        .answers (done_cancelId ..) (sameTables_cancelId ..)⟩

end Hand

end Works

section Others

variable {state next : Reception} {callis : CallisId}

theorem Kept.sameWork (kept : state.Kept) {changed : Reader}
    (work : SameWork state.readers (state.readers.insert callis changed)) :
    (state.setReader callis changed).Kept := by
  refine kept.congr (fun _ same => same) rfl work (fun id isReserved => ⟨isReserved, ?_⟩)
    fun _ same => same
  exact Held.mono (work.keeps id) (fun same => same) (fun same => same) (fun same => same)

section Cleanup

variable {index : Nat} {op : CleanupOp} {rest follow : List CleanupOp}

/-- A section that is due stays due, unless it is the one that is run. -/
theorem due_set {cleanups : List (List CleanupOp)} (due : cleanups[index]? = some (op :: rest))
    {later : CleanupOp} (other : op ≠ later) (listed : ∃ ops ∈ cleanups, later ∈ ops) :
    ∃ ops ∈ cleanups.set index (follow ++ rest), later ∈ ops := by
  obtain ⟨ops, isListed, isDue⟩ := listed
  obtain ⟨position, found⟩ := mem_iff_getElem?.mp isListed
  by_cases same : index = position
  · subst same
    cases due.symm.trans found
    have inRest := (mem_cons.mp isDue).resolve_left (fun same => other same.symm)
    have bound := (List.getElem?_eq_some_iff.mp due).choose
    exact ⟨follow ++ rest, mem_set bound _, mem_append_right follow inRest⟩
  · refine ⟨ops, mem_iff_getElem?.mpr ⟨position, ?_⟩, isDue⟩
    rwa [getElem?_set_ne same]

theorem Kept.cleaned (kept : state.Kept) (due : state.cleanups[index]? = some (op :: rest))
    (dedupe : next.dedupe = state.dedupe) (begun : next.begun = state.begun)
    (readers : next.readers = state.readers) (cleanups : next.cleanups = state.cleanups)
    (tables : ∀ id, (next.reservations.lookup id).isSome →
      (state.reservations.lookup id).isSome ∧ op ≠ .release id ∧
        (.release id ∈ follow ∨
          ((state.streams.lookup id).isSome → (next.streams.lookup id).isSome) ∧
            ((state.requests.lookup id).isSome → (next.requests.lookup id).isSome)))
    (requested : ∀ id, (next.requests.lookup id).isSome → (state.requests.lookup id).isSome) :
    { next with cleanups := next.cleanups.set index (follow ++ rest) }.Kept := by
  have work : SameWork state.readers next.readers := readers ▸ .refl _
  refine kept.congr (fun id same => dedupe ▸ same) begun work (fun id isReserved => ?_) requested
  obtain ⟨before, other, follows | ⟨streams, requests⟩⟩ := tables id isReserved
  · have bound := (List.getElem?_eq_some_iff.mp due).choose
    refine ⟨before, fun _ => .inr (.inl ⟨follow ++ rest, ?_, mem_append_left rest follows⟩)⟩
    exact mem_set (cleanups ▸ bound) _
  · refine ⟨before, Held.mono (work.keeps id) streams requests fun release => ?_⟩
    dsimp only
    rw [cleanups]
    exact due_set due other release

theorem Kept.cleanupStep (kept : state.Kept) (due : state.cleanups[index]? = some (op :: rest))
    (idle : op = .clearTables → ∀ id, (state.reservations.lookup id).isSome →
      state.requests.lookup id = none ∧ state.streams.lookup id = none) :
    { (state.cleanupStep op).2 with
      cleanups := (state.cleanupStep op).2.cleanups.set index
        ((state.cleanupStep op).1 ++ rest) }.Kept := by
  have erased {Value : Type} {map : HashMap PeerMessageId Value} {streamId id : PeerMessageId}
      (apart : id ≠ streamId) (present : (map.lookup id).isSome) :
      ((map.erase streamId).lookup id).isSome := by
    rwa [HashMap.lookup_erase_eq, if_neg apart]
  have lesser {Value : Type} {map : HashMap PeerMessageId Value} {streamId id : PeerMessageId}
      (present : ((map.erase streamId).lookup id).isSome) : (map.lookup id).isSome := by
    rw [HashMap.lookup_erase_eq] at present
    split at present
    · cases present
    · exact present
  have dropped {streamId : PeerMessageId} (other : ∀ id, op ≠ .release id) :
      { state.setBlob (state.blob.removePendingRequest streamId) with
        cleanups := state.cleanups.set index ([CleanupOp.release streamId] ++ rest) }.Kept := by
    refine @Kept.cleaned state (state.setBlob (state.blob.removePendingRequest streamId)) index op
      rest _ kept due rfl rfl rfl rfl (fun id isReserved => ⟨isReserved, other id, ?_⟩)
      fun _ => lesser
    by_cases same : id = streamId
    · exact .inl (by simp [same])
    · exact .inr ⟨fun present => present, erased same⟩
  cases op with
  | failPending streamId | dropPending streamId =>
    unfold Reception.cleanupStep
    dsimp only
    split
    · exact dropped (by simp)
    · exact kept.cleaned due rfl rfl rfl rfl (fun id isReserved =>
        ⟨isReserved, by simp, .inr ⟨fun present => present, fun present => present⟩⟩)
        fun _ same => same
  | removeStream streamId =>
    refine kept.cleaned due rfl rfl rfl rfl (fun id isReserved => ⟨isReserved, by simp, ?_⟩)
      fun _ same => same
    by_cases same : id = streamId
    · exact .inl (by simp [same, Reception.cleanupStep])
    · exact .inr ⟨erased same, fun present => present⟩
  | release streamId =>
    refine kept.cleaned due rfl rfl rfl rfl (fun id isReserved => ?_) fun _ same => same
    have apart : id ≠ streamId := by
      rintro rfl
      change ((state.reservations.erase id).lookup id).isSome = true at isReserved
      rw [AList.lookup_erase] at isReserved
      cases isReserved
    refine ⟨?_, by simpa using apart.symm, .inr ⟨fun present => present, fun present => present⟩⟩
    exact (AList.lookup_erase_ne apart) ▸ isReserved
  | expire now =>
    refine kept.cleaned due rfl rfl rfl rfl (fun id isReserved => ⟨isReserved, by simp, ?_⟩)
      fun _ same => same
    cases found : state.streams.lookup id with
    | none => exact .inr ⟨by simp, fun present => present⟩
    | some stream =>
      by_cases late : stream.deadline ≤ now
      · refine .inl (mem_map.mpr ⟨⟨id, stream⟩, mem_filter.mpr ⟨?_, ?_⟩, rfl⟩)
        · exact AList.mem_lookup_iff.mp found
        · simpa using late
      · refine .inr ⟨fun _ => ?_, fun present => present⟩
        have stays : (state.streams.retain fun _ stream =>
            decide (now < stream.deadline)).lookup id = some stream := by
          rw [HashMap.lookup_retain, found]
          simpa using late
        exact isSome_iff_exists.mpr ⟨stream, stays⟩
  | drainReservations =>
    refine kept.cleaned due rfl rfl rfl rfl (fun id isReserved => ?_) fun _ same => same
    simp [Reception.cleanupStep, Reception.reservations, setBlob] at isReserved
  | clearTables =>
    refine kept.cleaned due rfl rfl rfl rfl
      (fun id isReserved => ⟨isReserved, by simp, .inr ?_⟩) fun id isRequested => ?_
    · obtain ⟨request, stream⟩ := idle rfl id isReserved
      simp [request, stream]
    · simp [Reception.cleanupStep, Reception.requests, setBlob, BlobManager.setRecvStreams,
        BlobManager.setPendingRequests] at isRequested

end Cleanup

end Others

end Reception

end AureliaPeering.Callis
