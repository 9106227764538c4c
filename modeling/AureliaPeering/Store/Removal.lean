import AureliaPeering.Store.Invariant

/-!
The removal loops of the store, described as sequences of removals from its contents.
-/

namespace AureliaPeering.Store

open Collections List

/-- The contents of a store: what each slot holds. -/
abbrev Contents := SlotId → Option Entry

/-- Vacating occupied slots one after the other, with the items taken out in that order. -/
inductive Removals : Contents → List RetainedItem → Contents → Prop where
  | nil (contents : Contents) : Removals contents [] contents
  | cons {contents final : Contents} {id : SlotId} {stored : Entry} {items : List RetainedItem} :
      contents id = some stored → Removals (Function.update contents id none) items final →
      Removals contents (stored.item :: items) final

variable {id : SlotId} {stored : Entry} {after before : Contents} {items : List RetainedItem}

theorem Removals.single {contents : Contents}
    (present : contents id = some stored) :
    Removals contents [stored.item] (Function.update contents id none) :=
  .cons present (.nil _)

variable (removals : Removals before items after)

include removals

theorem Removals.of_remaining (remains : after id = some stored) : before id = some stored := by
  induction removals with
  | nil => exact remains
  | cons present _ ih =>
    have kept := ih remains
    rw [Function.update_apply] at kept
    split at kept
    · simp at kept
    · exact kept

theorem Removals.of_mem {item : RetainedItem} (taken : item ∈ items) :
    ∃ id stored, before id = some stored ∧ stored.item = item ∧ after id = none := by
  induction removals with
  | nil => simp at taken
  | @cons contents final id stored items present rest ih =>
    rcases mem_cons.mp taken with here | later
    · refine ⟨id, stored, present, here.symm, ?_⟩
      by_contra remains
      obtain ⟨held, at_id⟩ := Option.ne_none_iff_exists'.mp remains
      have kept := rest.of_remaining at_id
      simp at kept
    · obtain ⟨other, held, at_other, same, gone⟩ := ih later
      refine ⟨other, held, ?_, same, gone⟩
      rw [Function.update_apply] at at_other
      split at at_other
      · simp at at_other
      · exact at_other

theorem Removals.mem_of_gone (present : before id = some stored) (gone : after id = none) :
    stored.item ∈ items := by
  induction removals with
  | nil => cases present.symm.trans gone
  | @cons contents final other held items at_other rest ih =>
    by_cases here : id = other
    · subst here
      cases present.symm.trans at_other
      exact mem_cons_self
    · rw [← Function.update_of_ne here none contents] at present
      exact mem_cons_of_mem _ (ih present gone)

open RetainedStore in
theorem Removals.effects (result : Except AureliaError Unit) :
    ∃ ids : List SlotId, ids.Nodup ∧
      (∀ id, id ∈ ids ↔ after id = none ∧
        ∃ stored outbound, before id = some stored ∧ stored.item = .tracked outbound) ∧
      List.Forall₂ (fun id effect => ∃ stored outbound, before id = some stored ∧
        stored.item = .tracked outbound ∧ effect = ⟨outbound.peerMsgId, outbound.ackTx, result⟩)
        ids (items.flatMap (itemEffects result)) := by
  induction removals with
  | nil contents =>
    refine ⟨[], nodup_nil, ?_, .nil⟩
    intro id
    constructor
    · nofun
    · rintro ⟨gone, stored, _, present, _⟩
      cases gone.symm.trans present
  | @cons contents final id stored items present rest ih =>
    obtain ⟨ids, distinct, listed, effects⟩ := ih
    have vacated : final id = none := by
      by_contra remains
      obtain ⟨held, at_id⟩ := Option.ne_none_iff_exists'.mp remains
      have kept := rest.of_remaining at_id
      simp at kept
    have other {position : SlotId} (isListed : position ∈ ids) : position ≠ id := by
      rintro rfl
      obtain ⟨_, held, _, at_id, _⟩ := (listed position).mp isListed
      simp at at_id
    have earlier : List.Forall₂ (fun id effect => ∃ stored outbound, contents id = some stored ∧
        stored.item = .tracked outbound ∧
        effect = ⟨outbound.peerMsgId, outbound.ackTx, result⟩)
        ids (items.flatMap (itemEffects result)) := by
      apply List.Forall₂.imp _ effects
      rintro position effect ⟨held, outbound, at_position, rest⟩
      rw [Function.update_apply] at at_position
      split at at_position
      · cases at_position
      · exact ⟨held, outbound, at_position, rest⟩
    have listed_iff {position : SlotId} (apart : position ≠ id) : position ∈ ids ↔
        final position = none ∧ ∃ stored outbound, contents position = some stored ∧
          stored.item = .tracked outbound := by
      rw [listed, Function.update_of_ne apart]
    cases item_eq : stored.item with
    | ack peerMsgId | error peerMsgId frame =>
      refine ⟨ids, distinct, ?_, earlier⟩
      intro position
      by_cases here : position = id
      · subst here
        constructor
        · exact fun isListed => absurd rfl (other isListed)
        · rintro ⟨_, held, outbound, at_position, isTracked⟩
          cases present.symm.trans at_position
          cases item_eq.symm.trans isTracked
      · exact listed_iff here
    | tracked outbound =>
      refine ⟨id :: ids, nodup_cons.mpr ⟨fun again => other again rfl, distinct⟩, ?_,
        .cons ⟨stored, outbound, present, item_eq, rfl⟩ earlier⟩
      intro position
      by_cases here : position = id
      · subst here
        constructor
        · exact fun _ => ⟨vacated, stored, outbound, present, item_eq⟩
        · exact fun _ => mem_cons_self
      · rw [mem_cons, or_iff_right here]
        exact listed_iff here

omit removals

namespace RetainedStore

variable {store : RetainedStore}

/-- The store after removing a list of slots. -/
theorem removeSlots_spec (slots : List SlotId) (inv : store.Invariant) :
    (removeSlots slots store).2.Invariant ∧
      Removals store.contents (removeSlots slots store).1 (removeSlots slots store).2.contents ∧
      (∀ id, (removeSlots slots store).2.contents id =
        if id ∈ slots then none else store.contents id) := by
  induction slots generalizing store with
  | nil => exact ⟨inv, .nil _, by simp [removeSlots]⟩
  | cons slot rest ih =>
    cases present : store.contents slot with
    | none =>
      simp only [removeSlots, removeBySlot_of_none present]
      obtain ⟨next_inv, removals, contents_eq⟩ := ih inv
      refine ⟨next_inv, removals, fun id => ?_⟩
      rw [contents_eq]
      by_cases here : id = slot
      · subst here
        simp [present]
      · simp [here]
    | some stored =>
      obtain ⟨_, removed, middle_inv, middle_eq, _⟩ := removeBySlot_of_some inv present
      simp only [removeSlots, removed]
      obtain ⟨next_inv, removals, contents_eq⟩ := ih middle_inv
      refine ⟨next_inv, .cons present (middle_eq ▸ removals), fun id => ?_⟩
      rw [contents_eq, middle_eq]
      by_cases here : id = slot
      · subst here
        simp
      · simp [here]

/-- A deadline key is live exactly when its slot still holds the entry it was pushed for. -/
theorem keyLive_iff (inv : store.Invariant) (key : DeadlineKey) :
    store.keyLive key = true ↔ ∃ stored, store.contents key.slot = some stored ∧
      stored.deadline = key.deadline ∧ stored.seq = key.seq := by
  unfold keyLive contents LaneState.entry slot
  cases found : (store.lane key.slot.lane).slots[key.slot.index]? with
  | none => simp
  | some slot =>
    have occupied := ((inv.lanes key.slot.lane).slot_of_getElem? found).item_isSome_iff
    cases item_eq : slot.item with
    | none =>
      have empty : slot.state = .empty := by simpa [item_eq] using occupied
      simp [RetainedSlot.entry, item_eq, empty]
    | some item =>
      have filled : slot.state ≠ .empty := by simpa [item_eq] using occupied
      simp [RetainedSlot.entry, item_eq, filled, and_comm]

/-- The store after the expiry loop has handled the popped keys. -/
theorem removeLiveKeys_spec (keys : List DeadlineKey)
    (inv : store.Invariant) :
    (removeLiveKeys keys store).2.Invariant ∧
      Removals store.contents (removeLiveKeys keys store).1 (removeLiveKeys keys store).2.contents ∧
      (removeLiveKeys keys store).2.deadlines = store.deadlines ∧
      (∀ id stored, (removeLiveKeys keys store).2.contents id = some stored ↔
        store.contents id = some stored ∧ ⟨stored.deadline, id, stored.seq⟩ ∉ keys) := by
  induction keys generalizing store with
  | nil => exact ⟨inv, .nil _, rfl, by simp [removeLiveKeys]⟩
  | cons key rest ih =>
    cases live : store.keyLive key with
    | false =>
      simp only [removeLiveKeys, live, Bool.false_eq_true, if_false]
      obtain ⟨next_inv, removals, deadlines_eq, contents_iff⟩ := ih inv
      refine ⟨next_inv, removals, deadlines_eq, fun id stored => ?_⟩
      rw [contents_iff, mem_cons, not_or]
      refine and_congr_right fun present => (and_iff_right ?_).symm
      rintro rfl
      have alive := (keyLive_iff inv ⟨stored.deadline, id, stored.seq⟩).mpr
        ⟨stored, present, rfl, rfl⟩
      simp [alive] at live
    | true =>
      obtain ⟨stored, present, _⟩ := (keyLive_iff inv key).mp live
      obtain ⟨_, removed, middle_inv, middle_eq, same_heap, _⟩ :=
        removeBySlot_of_some inv present
      simp only [removeLiveKeys, live, if_true, removed]
      obtain ⟨next_inv, removals, deadlines_eq, contents_iff⟩ := ih middle_inv
      refine ⟨next_inv, .cons present (middle_eq ▸ removals), deadlines_eq.trans same_heap,
        fun id held => ?_⟩
      rw [contents_iff, middle_eq, mem_cons, not_or]
      by_cases here : id = key.slot
      · subst here
        simp only [Function.update_self, reduceCtorEq, false_and, false_iff, not_and]
        intro at_slot
        rw [present, Option.some.injEq] at at_slot
        subst at_slot
        intro different
        exact absurd (by cases key; simp_all) different
      · have different : (⟨held.deadline, id, held.seq⟩ : DeadlineKey) ≠ key := by
          intro same
          exact here (congrArg DeadlineKey.slot same)
        simp [here, different]

/-- Popping keys of which none belongs to a stored entry keeps the invariant. -/
theorem Invariant.with_deadlines (inv : store.Invariant)
    {deadlines : MinHeap DeadlineKey.rank}
    (kept : ∀ id stored, store.contents id = some stored →
      (⟨stored.deadline, id, stored.seq⟩ : DeadlineKey) ∈ deadlines) :
    { store with deadlines := deadlines }.Invariant :=
  inv.of_contents (by simpa using inv.lanes) (contents_congr (by simp)) rfl rfl
    fun id stored present _ => kept id stored present

theorem mem_popped_iff {heap : MinHeap DeadlineKey.rank} {key : DeadlineKey} (listed : key ∈ heap)
    (now : Instant) :
    key ∈ (heap.popWhile fun key => decide (key.deadline ≤ now)).1 ↔ key.deadline ≤ now := by
  constructor
  · intro popped
    simpa using (MinHeap.mem_of_mem_popWhile popped).2
  · intro due
    refine ((MinHeap.mem_popWhile_or _ _ _).mp listed).resolve_right fun remains => ?_
    have failed := MinHeap.test_of_mem_popWhile_rest (fun left right ordered passed => by
      have first : left.deadline ≤ right.deadline :=
        Prod.Lex.monotone_fst left.rank right.rank ordered
      simp only [decide_eq_true_eq] at passed ⊢
      exact first.trans passed) remains
    simp [due] at failed

/-- Expiry removes exactly the entries whose deadline has passed. -/
theorem expireDue_spec (inv : store.Invariant) (now : Instant) :
    (store.expireDue now).2.Invariant ∧
      (∃ items, (store.expireDue now).1 =
          items.flatMap (itemEffects (.error (.new .sendTimeout))) ∧
        Removals store.contents items (store.expireDue now).2.contents) ∧
      (∀ id stored, (store.expireDue now).2.contents id = some stored ↔
        store.contents id = some stored ∧ now < stored.deadline) := by
  let popped := store.deadlines.popWhile fun key => decide (key.deadline ≤ now)
  obtain ⟨loop_inv, removals, _, contents_iff⟩ := removeLiveKeys_spec popped.1 inv
  have contents_eq :
      (store.expireDue now).2.contents = (removeLiveKeys popped.1 store).2.contents :=
    contents_congr fun lane => congrArg _ (lane_with_deadlines _ lane _)
  refine ⟨?_, ⟨_, rfl, contents_eq ▸ removals⟩, fun id stored => ?_⟩
  · refine loop_inv.with_deadlines fun id stored present => ?_
    obtain ⟨before, unpopped⟩ := (contents_iff id stored).mp present
    exact ((MinHeap.mem_popWhile_or _ _ _).mp
      (inv.deadline_mem id stored before)).resolve_left unpopped
  · rw [contents_eq, contents_iff]
    refine and_congr_right fun present => ?_
    rw [mem_popped_iff (inv.deadline_mem id stored present) now]
    exact not_le

theorem nextDeadline_invariant (inv : store.Invariant) :
    store.nextDeadline.2.Invariant := by
  refine inv.with_deadlines fun id stored present => ?_
  refine ((MinHeap.mem_popWhile_or _ _ _).mp (inv.deadline_mem id stored present)).resolve_left ?_
  intro popped
  have dead := (MinHeap.mem_of_mem_popWhile popped).2
  have alive := (keyLive_iff inv ⟨stored.deadline, id, stored.seq⟩).mpr ⟨stored, present, rfl, rfl⟩
  simp [alive] at dead

theorem nextDeadline_contents (store : RetainedStore) :
    store.nextDeadline.2.contents = store.contents :=
  contents_congr fun lane => congrArg _ (lane_with_deadlines _ lane _)

/-- `ack` and `fail_one`: nothing happens, or one tracked message leaves with its sender. -/
theorem completeOne_cases (inv : store.Invariant)
    (peerMsgId : PeerMessageId) (result : Except AureliaError Unit) :
    (store.tracked.lookup peerMsgId = none ∧ store.completeOne peerMsgId result = (none, store)) ∨
      ∃ id stored outbound next, store.tracked.lookup peerMsgId = some id ∧
        store.contents id = some stored ∧ stored.item = .tracked outbound ∧
        outbound.peerMsgId = peerMsgId ∧
        store.completeOne peerMsgId result = (some ⟨peerMsgId, outbound.ackTx, result⟩, next) ∧
        next.Invariant ∧ next.contents = Function.update store.contents id none := by
  unfold completeOne
  cases listed : store.tracked.lookup peerMsgId with
  | none => exact .inl ⟨rfl, rfl⟩
  | some id =>
    obtain ⟨stored, present, kind, same_id⟩ := (inv.tracked_iff peerMsgId id).mp listed
    obtain ⟨next, removed, next_inv, contents_eq, _⟩ := removeBySlot_of_some inv present
    cases item_eq : stored.item with
    | ack other => simp [item_eq] at kind
    | error other frame => simp [item_eq] at kind
    | tracked outbound =>
      rw [item_eq] at removed same_id
      exact .inr ⟨id, stored, outbound, next, rfl, present, item_eq, same_id,
        by simp [removed], next_inv, contents_eq⟩

end RetainedStore

end AureliaPeering.Store
