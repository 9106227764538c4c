import AureliaPeering.Lib.Slots
import AureliaPeering.Net.Wire

/-!
What the inbound half of an endpoint remembers of its deliveries.

`Tidy` relates the deliveries to the ids that may still arrive, given as any predicate: an id
whose delivery is held or accepted, and that may arrive again, is remembered by the dedupe state.
Each operation keeps it; where a begin is released, the premise says that its delivery is decided
otherwise or that its id cannot arrive any more.  A clear releases all begins at once.
-/

namespace AureliaPeering.Net

open Collections Store Session List Option

namespace Inbound

/-- The next begin of the id does not return `New`. -/
def Remembers (inbound : Inbound) (peerMsgId : PeerMessageId) : Prop :=
  peerMsgId ∈ inbound.session.dedupe.set ∨
    (inbound.session.dedupe.pending.lookup peerMsgId).isSome = true

/-- A waiter owns the delivery `token`: its entry is pending if the id may still arrive, and no
other delivery of its id is held or accepted. -/
structure Owned (inbound : Inbound) (MayArrive : PeerMessageId → Prop)
    (peerMsgId : PeerMessageId) (token : AcceptReceiver) : Prop where
  delivered : ∃ delivery, inbound.deliveries[token]? = some delivery ∧
    delivery.peerMsgId = peerMsgId
  pending : MayArrive peerMsgId →
    (inbound.session.dedupe.pending.lookup peerMsgId).isSome = true
  latest : ∀ (index : Nat) (delivery : Delivery), inbound.deliveries[index]? = some delivery →
    delivery.live = true → delivery.peerMsgId = peerMsgId → index = token

def Apart (first second : InboundWaiter) : Prop :=
  first.kind.token.isSome = true → second.kind.token.isSome = true →
    first.peerMsgId ≠ second.peerMsgId

structure Tidy (inbound : Inbound) (MayArrive : PeerMessageId → Prop) : Prop where
  history : inbound.session.dedupe.Invariant
  known : ∀ delivery ∈ inbound.deliveries, delivery.live = true → MayArrive delivery.peerMsgId →
    inbound.Remembers delivery.peerMsgId
  single : ∀ (first second : Nat) (delivery other : Delivery),
    inbound.deliveries[first]? = some delivery →
    inbound.deliveries[second]? = some other → delivery.live = true → other.live = true →
    delivery.peerMsgId = other.peerMsgId → first = second
  apart : inbound.waiters.Pairwise Apart
  owned : ∀ waiter ∈ inbound.waiters, ∀ token, waiter.kind.token = some token →
    inbound.Owned MayArrive waiter.peerMsgId token
  activated : ∀ waiter ∈ inbound.waiters, ∀ token, waiter.kind = .blobCallis token →
    inbound.decisionOn token = some .accepted

variable {inbound next : Inbound} {MayArrive : PeerMessageId → Prop}

variable {waiter : InboundWaiter} {incarnation index sendQueueSize : Nat}
  {peerMsgId : PeerMessageId} {callis : CallisId} {token : AcceptReceiver}
  {decision : AcceptDecision}

theorem not_remembers (unrecorded : peerMsgId ∉ inbound.session.dedupe.set)
    (vacant : inbound.session.dedupe.pending.lookup peerMsgId = none) :
    ¬ inbound.Remembers peerMsgId := by
  rintro (recorded | pending)
  · exact unrecorded recorded
  · rw [vacant] at pending
    cases pending

section Tidy

variable (tidy : inbound.Tidy MayArrive)

include tidy

/-- `Tidy` reads the dedupe state, the waiters and the deliveries only. -/
theorem Tidy.congr
    (alike : next.session.dedupe.Alike inbound.session.dedupe)
    (waiters : next.waiters = inbound.waiters)
    (deliveries : next.deliveries = inbound.deliveries) : next.Tidy MayArrive := by
  have decision : next.decisionOn = inbound.decisionOn := by
    funext token
    rw [decisionOn, decisionOn, deliveries]
  refine ⟨⟨alike.order ▸ tidy.history.distinct, ?_⟩, ?_, ?_, waiters ▸ tidy.apart, ?_, ?_⟩
  · rw [alike.order, alike.set, tidy.history.agree]
  · simpa only [Remembers, alike.set, alike.pending, deliveries] using tidy.known
  · simpa only [deliveries] using tidy.single
  · intro waiter listed token owner
    obtain ⟨delivered, pending, latest⟩ := tidy.owned waiter (waiters ▸ listed) token owner
    exact ⟨by simpa only [deliveries] using delivered, by simpa only [alike.pending] using pending,
      by simpa only [deliveries] using latest⟩
  · simpa only [waiters, decision] using tidy.activated

theorem Tidy.of_arrivals {Fewer : PeerMessageId → Prop}
    (fewer : ∀ delivery ∈ inbound.deliveries, Fewer delivery.peerMsgId →
      MayArrive delivery.peerMsgId) : inbound.Tidy Fewer :=
  { tidy with
    known delivery listed live arrives :=
      tidy.known delivery listed live (fewer delivery listed arrives)
    owned waiter listed token owner := by
      obtain ⟨⟨delivery, found, same⟩, pending, latest⟩ := tidy.owned waiter listed token owner
      refine ⟨⟨delivery, found, same⟩, fun arrives => pending ?_, latest⟩
      exact same ▸ fewer delivery (mem_of_getElem? found) (same ▸ arrives) }

/-- Waiters may be lost without a word to the dedupe state. -/
theorem Tidy.of_sublist
    {waiters : List InboundWaiter} (fewer : waiters.Sublist inbound.waiters) :
    { inbound with waiters := waiters }.Tidy MayArrive :=
  { tidy with
    apart := tidy.apart.sublist fewer
    owned waiter listed token owner :=
      let ⟨delivered, pending, latest⟩ := tidy.owned waiter (fewer.subset listed) token owner
      ⟨delivered, pending, latest⟩
    activated waiter listed token kind := tidy.activated waiter (fewer.subset listed) token kind }

theorem Tidy.insertWaiter
    (alone : ∀ other ∈ inbound.waiters, Apart other waiter)
    (owned : ∀ token, waiter.kind.token = some token →
      inbound.Owned MayArrive waiter.peerMsgId token)
    (activated : ∀ token, waiter.kind = .blobCallis token →
      inbound.decisionOn token = some .accepted) :
    (inbound.insertWaiter waiter).Tidy MayArrive := by
  have fewer : (inbound.waiters.filter fun other =>
      !(other.callis = waiter.callis && other.peerMsgId = waiter.peerMsgId)).Sublist
        inbound.waiters := filter_sublist
  have kept := tidy.of_sublist fewer
  refine ⟨tidy.history, tidy.known, tidy.single, ?_, ?_, ?_⟩
  · refine pairwise_append.mpr ⟨kept.apart, pairwise_singleton _ _, ?_⟩
    intro other listed new here
    rw [mem_singleton.mp here]
    exact alone other (mem_of_mem_filter listed)
  · intro other listed token owner
    rcases mem_append.mp listed with old | here
    · obtain ⟨delivered, pending, latest⟩ := kept.owned other old token owner
      exact ⟨delivered, pending, latest⟩
    · rw [mem_singleton.mp here] at owner ⊢
      obtain ⟨delivered, pending, latest⟩ := owned token owner
      exact ⟨delivered, pending, latest⟩
  · intro other listed token kind
    rcases mem_append.mp listed with old | here
    · exact kept.activated other old token kind
    · exact activated token (mem_singleton.mp here ▸ kind)

theorem Tidy.removeWaiter (index : Nat) :
    (inbound.removeWaiter index).Tidy MayArrive :=
  tidy.of_sublist (eraseIdx_sublist ..)

theorem Tidy.apart_of_removed
    (found : inbound.waiters[index]? = some waiter) :
    ∀ other ∈ (inbound.removeWaiter index).waiters, Apart other waiter := by
  intro other listed
  obtain ⟨inRange, rfl⟩ := List.getElem?_eq_some_iff.mp found
  have reordered := getElem_cons_eraseIdx_perm inRange
  have symmetric : ∀ {first second : InboundWaiter}, Apart first second → Apart second first :=
    fun apart owner other => (apart other owner).symm
  have together := (reordered.pairwise_iff symmetric).mpr tidy.apart
  exact symmetric ((pairwise_cons.mp together).1 other listed)

/-- A begin is released: its entry goes, and its id is recorded, decided otherwise, or gone. -/
theorem Tidy.release
    {dedupe : DedupeState} (history : dedupe.Invariant)
    (alone : ∀ other ∈ inbound.waiters, other.kind.token.isSome = true →
      other.peerMsgId ≠ peerMsgId)
    (lookup : ∀ other, dedupe.pending.lookup other =
      if other = peerMsgId then none else inbound.session.dedupe.pending.lookup other)
    (recorded : ∀ other ∈ inbound.session.dedupe.set, MayArrive other → other ∈ dedupe.set)
    (released : MayArrive peerMsgId →
      (∃ delivery ∈ inbound.deliveries, delivery.live = true ∧ delivery.peerMsgId = peerMsgId) →
      peerMsgId ∈ dedupe.set) :
    (inbound.setDedupe dedupe).Tidy MayArrive := by
  refine ⟨history, ?_, tidy.single, tidy.apart, ?_, tidy.activated⟩
  · intro delivery listed live arrives
    by_cases same : delivery.peerMsgId = peerMsgId
    · exact .inl (same ▸ released (same ▸ arrives) ⟨delivery, listed, live, same⟩)
    · rcases tidy.known delivery listed live arrives with known | pending
      · exact .inl (recorded _ known arrives)
      · refine .inr ?_
        simp only [setDedupe]
        rw [lookup, if_neg same]
        exact pending
  · intro waiter listed token owner
    have different := alone waiter listed (isSome_iff_exists.mpr ⟨token, owner⟩)
    obtain ⟨delivered, pending, latest⟩ := tidy.owned waiter listed token owner
    refine ⟨delivered, fun arrives => ?_, latest⟩
    simp only [setDedupe]
    rw [lookup, if_neg different]
    exact pending arrives

theorem Tidy.delivered
    (arrives : MayArrive peerMsgId) (unknown : ¬ inbound.Remembers peerMsgId) (callis : CallisId)
    (incarnation : Nat) {kind : WaiterKind} (owner : kind.token = some inbound.deliveries.length)
    (waiting : ∀ token, kind ≠ .blobCallis token) :
    (inbound.delivered callis peerMsgId incarnation kind).Tidy MayArrive := by
  have unheld : ∀ delivery ∈ inbound.deliveries, delivery.live = true →
      delivery.peerMsgId ≠ peerMsgId := by
    rintro delivery listed live rfl
    exact unknown (tidy.known delivery listed live arrives)
  have earlier : ∀ {index : Nat} {delivery : Delivery},
      (inbound.deliveries ++ [⟨peerMsgId, incarnation, none⟩])[index]? = some delivery →
      inbound.deliveries[index]? = some delivery ∨
        (index = inbound.deliveries.length ∧ delivery = ⟨peerMsgId, incarnation, none⟩) := by
    intro index delivery found
    exact (Slots.getElem?_concat_eq_some.mp found).imp_right
      fun ⟨at_end, same⟩ => ⟨at_end, same.symm⟩
  have pushed : ((inbound.setDedupe { inbound.session.dedupe with
      pending := AList.insert peerMsgId [] inbound.session.dedupe.pending }).pushDelivery peerMsgId
        incarnation).Tidy MayArrive := by
    refine ⟨⟨tidy.history.distinct, tidy.history.agree⟩, ?_, ?_, tidy.apart, ?_, ?_⟩
    · intro delivery listed live arrives
      simp only [Remembers, setDedupe, pushDelivery, HashMap.lookup_insert_eq]
      rcases mem_append.mp listed with old | here
      · rw [if_neg (unheld delivery old live)]
        exact tidy.known delivery old live arrives
      · rw [mem_singleton.mp here, if_pos rfl]
        exact .inr rfl
    · intro first second delivery other at_first at_second live other_live same
      rcases earlier at_first with first_old | ⟨rfl, rfl⟩ <;>
      rcases earlier at_second with second_old | ⟨rfl, rfl⟩
      · exact tidy.single first second delivery other first_old second_old live other_live same
      · exact absurd same (unheld delivery (mem_of_getElem? first_old) live)
      · exact absurd same.symm (unheld other (mem_of_getElem? second_old) other_live)
      · rfl
    · intro other listed token owner
      obtain ⟨⟨delivery, at_token, known⟩, pending, latest⟩ := tidy.owned other listed token owner
      refine ⟨⟨delivery, ?_, known⟩, ?_, ?_⟩
      · exact List.getElem?_append_left (List.getElem?_eq_some_iff.mp at_token).1 ▸ at_token
      · intro arrives
        simp only [setDedupe, pushDelivery, HashMap.lookup_insert_eq]
        split
        · rfl
        · exact pending arrives
      · intro index held found live same
        rcases earlier found with old | ⟨rfl, rfl⟩
        · exact latest index held old live same
        · -- The other owner's entry would be pending, so its id is not the new one.
          have new_id : peerMsgId = other.peerMsgId := same
          exact absurd (.inr (new_id ▸ pending (new_id ▸ arrives))) unknown
    · intro other listed token kind
      have accepted := tidy.activated other listed token kind
      obtain ⟨held, at_token, decided⟩ := bind_eq_some_iff.mp accepted
      refine bind_eq_some_iff.mpr ⟨held, ?_, decided⟩
      exact List.getElem?_append_left (List.getElem?_eq_some_iff.mp at_token).1 ▸ at_token
  refine pushed.insertWaiter ?_ ?_ fun token kind => absurd kind (waiting token)
  · intro other listed other_owner _ same
    obtain ⟨token, is_owner⟩ := isSome_iff_exists.mp other_owner
    have pending := (tidy.owned other listed token is_owner).pending
    rw [show other.peerMsgId = peerMsgId from same] at pending
    exact unknown (.inr (pending arrives))
  · intro token is_owner
    cases owner.symm.trans is_owner
    refine ⟨⟨⟨peerMsgId, incarnation, none⟩, by simp [pushDelivery, setDedupe], rfl⟩, ?_, ?_⟩
    · simp [setDedupe, pushDelivery]
    · intro index held found live same
      rcases earlier found with old | ⟨rfl, _⟩
      · exact absurd same (unheld held (mem_of_getElem? old) live)
      · rfl

theorem Tidy.joined (callis : CallisId) (peerMsgId : PeerMessageId)
    (waiting : List DecisionSender) :
    (inbound.joined callis peerMsgId waiting).Tidy MayArrive := by
  have kept : ∀ {other : PeerMessageId},
      (inbound.session.dedupe.pending.lookup other).isSome = true →
      ((AList.insert peerMsgId (waiting ++ [inbound.duplicates.length])
        inbound.session.dedupe.pending).lookup other).isSome = true := by
    intro other pending
    rw [HashMap.lookup_insert_eq]
    split
    · rfl
    · exact pending
  have grown : ((inbound.setDedupe { inbound.session.dedupe with
      pending := AList.insert peerMsgId (waiting ++ [inbound.duplicates.length])
        inbound.session.dedupe.pending }).pushDuplicate peerMsgId).Tidy MayArrive := by
    refine ⟨⟨tidy.history.distinct, tidy.history.agree⟩, ?_, tidy.single, tidy.apart, ?_,
      tidy.activated⟩
    · intro delivery listed live arrives
      exact (tidy.known delivery listed live arrives).imp_right kept
    · intro waiter listed token owner
      obtain ⟨delivered, pending, latest⟩ := tidy.owned waiter listed token owner
      exact ⟨delivered, fun arrives => kept (pending arrives), latest⟩
  refine grown.insertWaiter ?_ ?_ ?_
  · intro other _ _ owner
    cases owner
  · intro token owner
    cases owner
  · intro token kind
    cases kind

theorem Tidy.received
    (received : inbound.Received callis incarnation peerMsgId next)
    (arrives : MayArrive peerMsgId) : next.Tidy MayArrive := by
  cases received with
  | answered answered => exact tidy.congr answered.alike answered.waiters answered.deliveries
  | joined _ _ => exact tidy.joined callis peerMsgId _
  | delivered unrecorded vacant fresh =>
    have unknown := not_remembers unrecorded vacant
    rcases fresh with rfl | rfl
    · exact tidy.delivered arrives unknown callis incarnation rfl (by simp)
    · exact tidy.delivered arrives unknown callis incarnation rfl (by simp)

theorem Tidy.decide
    (decided : inbound.decide token decision = some next) :
    next.Tidy MayArrive := by
  unfold Inbound.decide at decided
  split at decided
  · rename_i delivery found
    split at decided
    · rename_i undecided
      cases decided
      -- Every live delivery was live before, at the same place and under the same id.
      have before : ∀ {index : Nat} {held : Delivery},
          (inbound.deliveries.set token { delivery with decision := some decision })[index]? =
            some held →
          ∃ old, inbound.deliveries[index]? = some old ∧ old.peerMsgId = held.peerMsgId ∧
            (held.live = true → old.live = true) := by
        intro index held at_index
        rcases Slots.of_getElem?_set at_index with ⟨here, rfl⟩ | ⟨_, at_index⟩
        · exact ⟨delivery, here ▸ found, rfl, fun _ => by simp [Delivery.live, undecided]⟩
        · exact ⟨held, at_index, rfl, id⟩
      refine ⟨tidy.history, ?_, ?_, tidy.apart, ?_, ?_⟩
      · intro held listed live arrives
        obtain ⟨index, at_index⟩ := mem_iff_getElem?.mp listed
        obtain ⟨old, at_old, same, was_live⟩ := before at_index
        rw [← same] at arrives ⊢
        exact tidy.known old (mem_of_getElem? at_old) (was_live live) arrives
      · intro first second held other at_first at_second live other_live same
        obtain ⟨old, at_old, id_eq, was_live⟩ := before at_first
        obtain ⟨old_other, at_other, other_id, other_was_live⟩ := before at_second
        exact tidy.single first second old old_other at_old at_other (was_live live)
          (other_was_live other_live) (id_eq.trans (same.trans other_id.symm))
      · intro waiter listed owned owner
        obtain ⟨⟨held, at_owned, id_eq⟩, pending, latest⟩ := tidy.owned waiter listed owned owner
        refine ⟨?_, pending, ?_⟩
        · by_cases here : token = owned
          · subst here
            cases found.symm.trans at_owned
            exact ⟨_, List.getElem?_set_self (List.getElem?_eq_some_iff.mp found).1, id_eq⟩
          · exact ⟨held, (getElem?_set_ne here).trans at_owned, id_eq⟩
        · intro index other at_index live same
          obtain ⟨old, at_old, other_id, was_live⟩ := before at_index
          exact latest index old at_old (was_live live) (other_id.trans same)
      · intro waiter listed owned kind
        have accepted := tidy.activated waiter listed owned kind
        have elsewhere : token ≠ owned := by
          rintro rfl
          rw [decisionOn, found, bind_some, undecided] at accepted
          cases accepted
        rw [decisionOn] at accepted ⊢
        rw [getElem?_set_ne elsewhere]
        exact accepted
    · cases decided
  · cases decided

end Tidy

def Unowned (inbound : Inbound) (peerMsgId : PeerMessageId) : Prop :=
  ∀ waiter ∈ inbound.waiters, waiter.kind.token.isSome = true → waiter.peerMsgId ≠ peerMsgId

/-- A delivery of the id is held or accepted. -/
def Live (inbound : Inbound) (peerMsgId : PeerMessageId) : Prop :=
  ∃ delivery ∈ inbound.deliveries, delivery.live = true ∧ delivery.peerMsgId = peerMsgId

section Tidy

variable (tidy : inbound.Tidy MayArrive)

include tidy

theorem Tidy.complete_ok
    (unowned : inbound.Unowned peerMsgId) (sendQueueSize : Nat)
    (spared : ∀ other ∈ inbound.session.dedupe.oldest (dedupeLimit sendQueueSize),
      ¬ MayArrive other) :
    (inbound.complete sendQueueSize peerMsgId (.ok ())).Tidy MayArrive := by
  have removed : (inbound.session.dedupe.removePending peerMsgId).Invariant :=
    ⟨tidy.history.distinct, tidy.history.agree⟩
  have released := tidy.release
    (DedupeState.dedupeComplete_invariant tidy.history sendQueueSize peerMsgId (.ok ())) unowned
    (fun other => DedupeState.dedupeComplete_lookup _ sendQueueSize peerMsgId other (.ok ()))
    (fun other recorded arrives => DedupeState.mem_record_of_mem (dedupeLimit_pos sendQueueSize)
      recorded fun pushed => spared other pushed arrives)
    (fun _ _ => DedupeState.mem_record_self removed (dedupeLimit_pos sendQueueSize) peerMsgId)
  exact released.congr (.refl _) rfl rfl

theorem Tidy.complete_error
    (unowned : inbound.Unowned peerMsgId) (sendQueueSize : Nat) (error : AureliaError)
    (gone : MayArrive peerMsgId → ¬ inbound.Live peerMsgId) :
    (inbound.complete sendQueueSize peerMsgId (.error error)).Tidy MayArrive := by
  have released := tidy.release
    (DedupeState.dedupeComplete_invariant tidy.history sendQueueSize peerMsgId (.error error))
    unowned
    (fun other => DedupeState.dedupeComplete_lookup _ sendQueueSize peerMsgId other (.error error))
    (fun _ recorded _ => recorded) (fun arrives live => absurd live (gone arrives))
  exact released.congr (.refl _) rfl rfl

theorem Tidy.abandon
    (unowned : inbound.Unowned peerMsgId) (gone : MayArrive peerMsgId → ¬ inbound.Live peerMsgId) :
    (inbound.abandon peerMsgId).Tidy MayArrive := by
  have released : (inbound.setDedupe (inbound.session.dedupe.removePending peerMsgId)).Tidy
      MayArrive := tidy.release ⟨tidy.history.distinct, tidy.history.agree⟩ unowned
    (fun other => DedupeState.removePending_lookup _ peerMsgId other)
    (fun _ recorded _ => recorded) (fun arrives live => absurd live (gone arrives))
  exact released.congr (.refl _) rfl rfl

/-- The dedupe state is emptied while no id may arrive whose delivery is held or accepted or still
has its waiter. -/
theorem Tidy.clear
    (spared : ∀ peerMsgId, MayArrive peerMsgId →
      ¬ inbound.Live peerMsgId ∧ inbound.Unowned peerMsgId) :
    (inbound.setDedupe .new).Tidy MayArrive := by
  refine ⟨DedupeState.new_invariant, fun delivery listed live arrives => ?_, tidy.single,
    tidy.apart, fun waiter listed token owner => ?_, tidy.activated⟩
  · exact absurd ⟨delivery, listed, live, rfl⟩ (spared _ arrives).1
  · obtain ⟨delivered, _, latest⟩ := tidy.owned waiter listed token owner
    refine ⟨delivered, fun arrives => ?_, latest⟩
    exact absurd rfl ((spared _ arrives).2 waiter listed (isSome_iff_exists.mpr ⟨token, owner⟩))

theorem Tidy.finish_ok
    (unowned : inbound.Unowned peerMsgId) (sendQueueSize : Nat)
    (spared : ∀ other ∈ inbound.session.dedupe.oldest (dedupeLimit sendQueueSize),
      ¬ MayArrive other) :
    (inbound.finish sendQueueSize peerMsgId (.ok ())).Tidy MayArrive :=
  (tidy.complete_ok unowned sendQueueSize spared).congr (.refl _) rfl rfl

theorem Tidy.finish_error
    (unowned : inbound.Unowned peerMsgId) (sendQueueSize : Nat) (error : AureliaError)
    (gone : MayArrive peerMsgId → ¬ inbound.Live peerMsgId) :
    (inbound.finish sendQueueSize peerMsgId (.error error)).Tidy MayArrive :=
  (tidy.complete_error unowned sendQueueSize error gone).congr (.refl _) rfl rfl

theorem Tidy.unowned_of_removed
    (found : inbound.waiters[index]? = some waiter) (owner : waiter.kind.token = some token) :
    (inbound.removeWaiter index).Unowned waiter.peerMsgId := by
  intro other listed other_owner
  exact tidy.apart_of_removed found other listed other_owner
    (isSome_iff_exists.mpr ⟨token, owner⟩)

theorem Tidy.gone_of_refused
    (listed : waiter ∈ inbound.waiters)
    (owner : waiter.kind.token = some token)
    (decided : inbound.decisionOn token = some decision) (refused : decision ≠ .accepted) :
    ¬ inbound.Live waiter.peerMsgId := by
  rintro ⟨delivery, held, live, same⟩
  obtain ⟨index, at_index⟩ := mem_iff_getElem?.mp held
  obtain rfl := (tidy.owned waiter listed token owner).latest index delivery at_index live same
  rw [decisionOn, at_index, bind_some] at decided
  simp [Delivery.live, decided, refused] at live

end Tidy

/-- What has to hold before a waiter with an accepted delivery is drained. -/
structure Spares (inbound : Inbound) (MayArrive : PeerMessageId → Prop) (waiter : InboundWaiter)
    (activation : BlobActivation) (sendQueueSize : Nat) : Prop where
  history : ∀ other ∈ inbound.session.dedupe.oldest (dedupeLimit sendQueueSize), ¬ MayArrive other
  blob : (∀ token, waiter.kind ≠ .message token) → ∀ error, activation = .failed error →
    ¬ MayArrive waiter.peerMsgId

variable (tidy : inbound.Tidy MayArrive)

include tidy

theorem Tidy.drained {activation : BlobActivation} (found : inbound.waiters[index]? = some waiter)
    (drained : inbound.Drained index waiter activation sendQueueSize next)
    (spares : ∀ token, waiter.kind.token = some token →
      inbound.decisionOn token = some .accepted →
      inbound.Spares MayArrive waiter activation sendQueueSize) : next.Tidy MayArrive := by
  have rest := tidy.removeWaiter index
  have listed := mem_of_getElem? found
  cases drained with
  | @decided token decision kind decided =>
    have owner : waiter.kind.token = some token := by
      rcases kind with kind | ⟨kind, _⟩ <;> rw [kind] <;> rfl
    have unowned := tidy.unowned_of_removed found owner
    cases decision with
    | accepted => exact rest.finish_ok unowned sendQueueSize (spares token owner decided).history
    | rejected error =>
      exact rest.finish_error unowned sendQueueSize error fun _ =>
        tidy.gone_of_refused listed owner decided (by simp)
    | closed =>
      exact rest.finish_error unowned sendQueueSize _ fun _ =>
        tidy.gone_of_refused listed owner decided (by simp)
  | @activated token kind =>
    have owner : waiter.kind.token = some token := by
      rcases kind with ⟨kind, _⟩ | kind <;> rw [kind] <;> rfl
    have other : ∀ message, waiter.kind ≠ .message message := by
      rintro message same
      rcases kind with ⟨kind, _⟩ | kind <;> rw [kind] at same <;> cases same
    have accepted : inbound.decisionOn token = some .accepted := by
      rcases kind with ⟨_, accepted⟩ | kind
      · exact accepted
      · exact tidy.activated waiter listed token kind
    have unowned := tidy.unowned_of_removed found owner
    have spared := spares token owner accepted
    cases activation with
    | ready => exact rest.finish_ok unowned sendQueueSize spared.history
    | failed error =>
      exact rest.finish_error unowned sendQueueSize error fun arrives =>
        absurd arrives (spared.blob other error rfl)
    | waiting =>
      obtain ⟨delivered, pending, latest⟩ := tidy.owned waiter listed token owner
      refine rest.insertWaiter ?_ ?_ ?_
      · intro remaining kept remaining_owner _
        exact unowned remaining kept remaining_owner
      · intro owned same
        cases same
        exact ⟨delivered, pending, latest⟩
      · intro owned same
        obtain rfl := WaiterKind.blobCallis.inj same
        exact accepted
  | resolved _ _ | closed _ => exact rest.congr (.refl _) rfl rfl

theorem Tidy.cancel {reason : CancelReason}
    (cancelled : inbound.cancel index reason sendQueueSize = some next)
    (spares : ∀ waiter token, inbound.waiters[index]? = some waiter →
      waiter.kind.token = some token → MayArrive waiter.peerMsgId →
      ∃ decision, inbound.decisionOn token = some decision ∧ decision ≠ .accepted) :
    next.Tidy MayArrive := by
  obtain ⟨waiter, found, ⟨_, rfl⟩ | ⟨token, owner, outcome⟩⟩ := cancel_cases cancelled
  · exact tidy.removeWaiter index
  · have rest := tidy.removeWaiter index
    have unowned := tidy.unowned_of_removed found owner
    have gone : MayArrive waiter.peerMsgId → ¬ inbound.Live waiter.peerMsgId := by
      intro arrives
      obtain ⟨decision, decided, refused⟩ := spares waiter token found owner arrives
      exact tidy.gone_of_refused (mem_of_getElem? found) owner decided refused
    rcases outcome with rfl | rfl
    · exact rest.complete_error unowned sendQueueSize _ gone
    · exact rest.abandon unowned gone

theorem Tidy.drop (dropped : inbound.drop index = some next) : next.Tidy MayArrive := by
  obtain ⟨_, _, rfl⟩ := map_eq_some_iff.mp dropped
  exact tidy.removeWaiter index

theorem Tidy.begin_ne_new (live : inbound.Live peerMsgId) (arrives : MayArrive peerMsgId)
    (sender : DecisionSender) : (inbound.session.dedupe.dedupeBegin peerMsgId sender).1 ≠ .new := by
  obtain ⟨delivery, listed, is_live, rfl⟩ := live
  have known := tidy.known delivery listed is_live arrives
  rcases inbound.session.dedupe.dedupeBegin_cases delivery.peerMsgId sender with
    ⟨_, begun⟩ | ⟨_, _, _, begun⟩ | ⟨unrecorded, vacant, begun⟩
  · simp [begun]
  · simp [begun]
  · exact absurd known (not_remembers unrecorded vacant)

/-- A known id is not delivered again. -/
theorem Tidy.received_deliveries (received : inbound.Received callis incarnation peerMsgId next)
    (live : inbound.Live peerMsgId) (arrives : MayArrive peerMsgId) :
    next.deliveries = inbound.deliveries := by
  cases received with
  | answered answered => exact answered.deliveries
  | joined _ _ => rfl
  | delivered unrecorded vacant _ =>
    obtain ⟨delivery, listed, is_live, rfl⟩ := live
    exact absurd (tidy.known delivery listed is_live arrives) (not_remembers unrecorded vacant)

end Inbound

end AureliaPeering.Net
