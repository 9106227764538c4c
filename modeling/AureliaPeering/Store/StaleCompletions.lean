import AureliaPeering.Store.SlotFrames

/-!
Completions of writes whose item has meanwhile moved on.

A callis completes the claim it has outstanding before it makes another one.  Only its own claims
put a slot into the state `Writing` for it, so a slot that has changed since the claim cannot look
as if it had not.
-/

namespace AureliaPeering.Store

open Collections RetainedStore

def Output.claimed : Output → Option RetainedClaim
  | .claim result => result
  | _ => Option.none

/-- A store with the claims that are outstanding on the callis.  Claims are numbered.  The holder of
a slot is the last claim made of it, as long as the slot has stayed as that claim left it. -/
structure Leased where
  store : RetainedStore
  outstanding : CallisId → Option (Nat × RetainedClaim)
  holder : SlotId → Option Nat
  claims : Nat

/-- A callis may also end without completing its claim. -/
inductive LeaseEvent where
  | perform (op : Op) (output : Output)
  | abandon (callisId : CallisId)

namespace Leased

def nextOutstanding (state : Leased) (op : Op) (output : Output) (callisId : CallisId) :
    Option (Nat × RetainedClaim) :=
  match op with
  | .claimNext claimer =>
    if callisId = claimer then output.claimed.map fun claim => (state.claims, claim)
    else state.outstanding callisId
  | .completeWrite claim _ =>
    if callisId = claim.callisId then none else state.outstanding callisId
  | _ => state.outstanding callisId

def nextHolder (state : Leased) (output : Output) (next : RetainedStore) (id : SlotId) :
    Option Nat :=
  if output.claimed.any (fun claim => decide (claim.slot = id)) then some state.claims
  else if next.slot id = state.store.slot id then state.holder id else none

def after (state : Leased) (op : Op) (output : Output) (next : RetainedStore) : Leased where
  store := next
  outstanding := state.nextOutstanding op output
  holder := state.nextHolder output next
  claims := state.claims + if output.claimed.isSome then 1 else 0

/-- A callis claims only if it has nothing outstanding, and completes what it has outstanding. -/
def Disciplined (state : Leased) : Op → Prop
  | .claimNext callisId => state.outstanding callisId = none
  | .completeWrite claim _ => ∃ number, state.outstanding claim.callisId = some (number, claim)
  | _ => True

def system : Machine.System Leased LeaseEvent where
  Initial state := ∃ capacities now,
    state = ⟨RetainedStore.new capacities now, fun _ => none, fun _ => none, 0⟩
  Step state event next :=
    match event with
    | .perform op output => state.Disciplined op ∧
        Store.system.Step state.store (op, output) next.store ∧
        next = state.after op output next.store
    | .abandon callisId =>
      next = { state with outstanding := Function.update state.outstanding callisId none }

/-- The claim still holds its slot, which is then as the claim left it; or the slot is not being
written by the callis of the claim. -/
def Tells (state : Leased) (callisId : CallisId) (number : Nat) (claim : RetainedClaim) : Prop :=
  (state.holder claim.slot = some number ∧
    ∃ slot, state.store.slot claim.slot = some slot ∧ WrittenBy claim slot) ∨
  (state.holder claim.slot ≠ some number ∧
    ∀ slot, state.store.slot claim.slot = some slot → slot.state ≠ .writing callisId)

structure Invariant (state : Leased) : Prop where
  store : state.store.Invariant
  owned : ∀ callisId number claim, state.outstanding callisId = some (number, claim) →
    claim.callisId = callisId ∧ number < state.claims
  tells : ∀ callisId number claim, state.outstanding callisId = some (number, claim) →
    state.Tells callisId number claim

end Leased

theorem slot_of_step {store next : RetainedStore} {op : Op} {output : Output}
    (inv : store.Invariant) (performed : step store op = .ok (output, next)) {callisId : CallisId}
    (other : op ≠ .claimNext callisId) (id : SlotId) :
    next.slot id = store.slot id ∨ ∃ slot, next.slot id = some slot ∧
      slot.state ≠ .writing callisId := by
  have unwritten {slot : RetainedSlot} (idle : slot.Idle) : slot.state ≠ .writing callisId := by
    intro writing
    rw [RetainedSlot.Idle, writing] at idle
    cases idle
  have ofIdle (alters : store.Alters RetainedSlot.Idle next) :
      next.slot id = store.slot id ∨ ∃ slot, next.slot id = some slot ∧
        slot.state ≠ .writing callisId := by
    rcases alters.slot id with same | ⟨slot, found, idle⟩
    · exact .inl same
    · exact .inr ⟨slot, found, unwritten idle⟩
  by_cases claims : ∃ claimer, op = .claimNext claimer
  · obtain ⟨claimer, rfl⟩ := claims
    simp only [step, Except.ok.injEq, Prod.mk.injEq] at performed
    obtain ⟨_, rfl⟩ := performed
    rcases (alters_of_tries (claimLanes_tries claimer _ store)).slot id with
      same | ⟨slot, found, writing⟩
    · exact .inl same
    · apply Or.inr
      refine ⟨slot, found, ?_⟩
      rw [writing]
      intro same
      cases same
      exact other rfl
  by_cases completes : ∃ claim result, op = .completeWrite claim result
  · obtain ⟨claim, result, rfl⟩ := completes
    simp only [step, Except.ok.injEq, Prod.mk.injEq] at performed
    obtain ⟨_, rfl⟩ := performed
    rcases completeWrite_slots store claim result with
      unchanged | ⟨slot, found, _, idle | sent⟩
    · rw [unchanged]
      exact .inl rfl
    · exact ofIdle idle
    · rw [sent id]
      split
      · apply Or.inr
        refine ⟨_, rfl, ?_⟩
        intro writing
        cases writing
      · exact .inl rfl
  · apply ofIdle
    apply step_alters inv performed
    · exact fun claimer same => claims ⟨claimer, same⟩
    · exact fun claim result same => completes ⟨claim, result, same⟩

namespace Leased

theorem initial_invariant {state : Leased} (initial : system.Initial state) : state.Invariant := by
  obtain ⟨capacities, now, rfl⟩ := initial
  constructor
  · exact new_invariant capacities now
  · nofun
  · nofun

section Step

variable {state : Leased} {op : Op} {output : Output} {next : RetainedStore}

theorem nextHolder_of_unclaimed {id : SlotId}
    (unclaimed : ∀ claim ∈ output.claimed, claim.slot ≠ id) :
    state.nextHolder output next id =
      if next.slot id = state.store.slot id then state.holder id else none := by
  unfold nextHolder
  rw [if_neg]
  cases claimed : output.claimed with
  | none => nofun
  | some claim => simpa using unclaimed claim claimed

theorem Tells.step (inv : state.Invariant) {callisId : CallisId} {number : Nat}
    {claim : RetainedClaim} (held : state.outstanding callisId = some (number, claim))
    (performed : Store.step state.store op = .ok (output, next))
    (other : op ≠ .claimNext callisId)
    (claims : ∀ made ∈ output.claimed, ∃ claimer, op = .claimNext claimer ∧
      ∃ slot, next.slot made.slot = some slot ∧ slot.state = .writing claimer) :
    (state.after op output next).Tells callisId number claim := by
  have old := (inv.owned callisId number claim held).2
  by_cases taken : ∃ made ∈ output.claimed, made.slot = claim.slot
  · obtain ⟨made, isMade, same⟩ := taken
    obtain ⟨claimer, rfl, slot, found, writing⟩ := claims made isMade
    apply Or.inr
    constructor
    · change state.nextHolder output next claim.slot ≠ some number
      rw [nextHolder, isMade, if_pos (by simpa using same)]
      intro equal
      cases equal
      exact lt_irrefl _ old
    · intro now at_slot
      rw [same] at found
      cases found.symm.trans at_slot
      rw [writing]
      intro equal
      cases equal
      exact other rfl
  · have unclaimed : ∀ made ∈ output.claimed, made.slot ≠ claim.slot :=
      fun made isMade same => taken ⟨made, isMade, same⟩
    have holder_eq : (state.after op output next).holder claim.slot = _ :=
      nextHolder_of_unclaimed unclaimed
    by_cases same : next.slot claim.slot = state.store.slot claim.slot
    · rw [if_pos same] at holder_eq
      rw [Tells, holder_eq]
      change (_ ∧ ∃ slot, next.slot claim.slot = some slot ∧ _) ∨
        (_ ∧ ∀ slot, next.slot claim.slot = some slot → _)
      rw [same]
      exact inv.tells callisId number claim held
    · rw [if_neg same] at holder_eq
      apply Or.inr
      constructor
      · rw [holder_eq]
        nofun
      · rcases slot_of_step inv.store performed other claim.slot with
          unchanged | ⟨slot, found, unwritten⟩
        · exact absurd unchanged same
        · intro now at_slot
          cases found.symm.trans at_slot
          exact unwritten

/-- Only `claim_next` returns a claim, of a slot it has put on its callis. -/
theorem claimed_of_step (inv : state.store.Invariant)
    (performed : Store.step state.store op = .ok (output, next)) {made : RetainedClaim}
    (isMade : made ∈ output.claimed) :
    ∃ claimer, op = .claimNext claimer ∧ made.callisId = claimer ∧
      ∃ slot, next.slot made.slot = some slot ∧ WrittenBy made slot := by
  cases op with
  | claimNext claimer =>
    simp only [Store.step, Except.ok.injEq, Prod.mk.injEq] at performed
    obtain ⟨rfl, rfl⟩ := performed
    have claimed := claimNext_claimed inv claimer
    rw [show (state.store.claimNext claimer).1 = some made from isMade] at claimed
    obtain ⟨slot, _, _, _, item_eq, _, made_eq, slots⟩ := claimed
    have callis : made.callisId = claimer := by rw [made_eq]; rfl
    refine ⟨claimer, rfl, callis, _, (slots made.slot).trans (if_pos rfl), ?_, ?_⟩
    · rw [callis]
    · rw [made_eq]
      simp [RetainedSlot.identity, item_eq, claimOf]
  | insertAck peerMsgId deadline now | insertError peerMsgId frame deadline now
  | insertTracked tracked deadline now =>
    obtain ⟨_, _, same⟩ := mapped_eq_ok performed
    cases same
    cases isMade
  | setCapacities | setShutdown | completeWrite | ack | failOne | failAll | failNonA1
  | markCallisReplayReady | markAllTrackedReplayReady | markTrackedReplayReady | expireDue
  | nextDeadline | beginShutdown | dropResponses =>
    cases performed
    cases isMade

theorem perform_invariant (inv : state.Invariant) (disciplined : state.Disciplined op)
    (taken : Store.system.Step state.store (op, output) next) :
    (state.after op output next).Invariant := by
  have performed : Store.step state.store op = .ok (output, next) := taken.2
  have claims {made : RetainedClaim} (isMade : made ∈ output.claimed) :=
    claimed_of_step inv.store performed isMade
  have kept {callisId : CallisId} {number : Nat} {claim : RetainedClaim}
      (held : state.outstanding callisId = some (number, claim))
      (other : op ≠ .claimNext callisId) : _ :=
    Tells.step inv held performed other fun made isMade => by
      obtain ⟨claimer, isClaim, callis, slot, found, written⟩ := claims isMade
      exact ⟨claimer, isClaim, slot, found, callis ▸ written.1⟩
  have later {number : Nat} (before : number < state.claims) :
      number < (state.after op output next).claims := before.trans_le (Nat.le_add_right ..)
  have next_inv := (step_invariant inv.store taken).1
  have apart {callisId : CallisId} {number : Nat} {claim : RetainedClaim}
      (held : state.outstanding callisId = some (number, claim)) :
      op ≠ .claimNext callisId := by
    rintro rfl
    cases held.symm.trans disciplined
  have cases_of {callisId : CallisId} {number : Nat} {claim : RetainedClaim}
      (held : (state.after op output next).outstanding callisId = some (number, claim)) :
      state.outstanding callisId = some (number, claim) ∨
        (op = .claimNext callisId ∧ claim ∈ output.claimed ∧ number = state.claims) := by
    change state.nextOutstanding op output callisId = _ at held
    unfold nextOutstanding at held
    split at held
    · split at held
      · rename_i same
        subst same
        obtain ⟨made, isMade, pair_eq⟩ := Option.map_eq_some_iff.mp held
        cases pair_eq
        exact .inr ⟨rfl, isMade, rfl⟩
      · exact .inl held
    · split at held
      · cases held
      · exact .inl held
    · exact .inl held
  constructor
  · exact next_inv
  · intro callisId number claim held
    rcases cases_of held with before | ⟨isClaim, isMade, rfl⟩
    · obtain ⟨callis, old⟩ := inv.owned callisId number claim before
      exact ⟨callis, later old⟩
    · obtain ⟨claimer, sameOp, callis, _⟩ := claims isMade
      cases isClaim.symm.trans sameOp
      refine ⟨callis, ?_⟩
      change state.claims < state.claims + _
      rw [show output.claimed = some claim from isMade]
      exact Nat.lt_succ_self _
  · intro callisId number claim held
    rcases cases_of held with before | ⟨isClaim, isMade, rfl⟩
    · exact kept before (apart before)
    · obtain ⟨claimer, _, _, slot, found, written⟩ := claims isMade
      apply Or.inl
      refine ⟨?_, slot, found, written⟩
      change state.nextHolder output next claim.slot = _
      rw [nextHolder, show output.claimed = some claim from isMade]
      simp

end Step

variable {state : Leased}

theorem step_invariant {next : Leased} {event : LeaseEvent} (inv : state.Invariant)
    (taken : system.Step state event next) : next.Invariant := by
  cases event with
  | perform op output =>
    obtain ⟨disciplined, stepped, next_eq⟩ := taken
    rw [next_eq]
    exact perform_invariant inv disciplined stepped
  | abandon callisId =>
    cases taken
    have kept {other : CallisId} {number : Nat} {claim : RetainedClaim}
        (held : Function.update state.outstanding callisId none other = some (number, claim)) :
        state.outstanding other = some (number, claim) := by
      rw [Function.update_apply] at held
      split at held
      · cases held
      · exact held
    constructor
    · exact inv.store
    · exact fun other number claim held => inv.owned other number claim (kept held)
    · exact fun other number claim held => inv.tells other number claim (kept held)

theorem reachable_invariant (reached : system.Reachable state) :
    state.Invariant :=
  reached.invariant (fun _ initial => initial_invariant initial)
    fun _ _ _ inv taken => step_invariant inv taken

theorem completeWrite_of_unwritten {store : RetainedStore} {claim : RetainedClaim}
    (unwritten : ∀ slot, store.slot claim.slot = some slot →
      slot.state ≠ .writing claim.callisId) (result : Except AureliaError Unit) :
    store.completeWrite claim result = ([], store) := by
  rcases completeWrite_slots store claim result with unchanged | ⟨slot, found, written, _⟩
  · exact unchanged
  · exact absurd written.1 (unwritten slot found)

/-- The claim a callis has outstanding either still holds its slot, which is then being written by
the callis and has the item the claim was made of; or its completion, with whatever result, leaves
the store as it is. -/
theorem stale_completion_harmless {state : Leased} (reached : system.Reachable state)
    {callisId : CallisId} {number : Nat} {claim : RetainedClaim}
    (outstanding : state.outstanding callisId = some (number, claim)) :
    (state.holder claim.slot = some number ∧
      ∃ slot, state.store.slot claim.slot = some slot ∧ slot.state = .writing callisId ∧
        slot.identity = some claim.identity) ∨
    (state.holder claim.slot ≠ some number ∧
      ∀ result, state.store.completeWrite claim result = ([], state.store)) := by
  have inv := reachable_invariant reached
  obtain ⟨rfl, _⟩ := inv.owned callisId number claim outstanding
  rcases inv.tells _ number claim outstanding with ⟨holds, slot, found, written⟩ | ⟨lost, unwritten⟩
  · exact .inl ⟨holds, slot, found, written⟩
  · exact .inr ⟨lost, completeWrite_of_unwritten unwritten⟩

theorem reachable_after (reached : system.Reachable state) {op : Op}
    {output : Output} {next : RetainedStore} (disciplined : state.Disciplined op)
    (ordered : op.Ordered state.store)
    (performed : Store.step state.store op = .ok (output, next)) :
    system.Reachable (state.after op output next) := by
  have taken : system.Step state (.perform op output) (state.after op output next) :=
    ⟨disciplined, ⟨ordered, performed⟩, rfl⟩
  exact reached.step taken

/-- Callis 1 writes a message that is meanwhile acknowledged.  Another message takes its slot and is
claimed by callis 2, which the late completion of callis 1 does not touch. -/
theorem stale_completion_harmless_reuse :
    ∃ state claim, system.Reachable state ∧ state.outstanding 1 = some (0, claim) ∧
      (state.store.slot claim.slot).map RetainedSlot.state = some (.writing 2) ∧
      ∀ result, state.store.completeWrite claim result = ([], state.store) := by
  have start : system.Reachable
      ⟨RetainedStore.new ⟨1, 1, 1, 1⟩ 0, fun _ => none, fun _ => none, 0⟩ := .start ⟨_, _, rfl⟩
  have inserted := @reachable_after _ start
    (.insertTracked ⟨⟨7, 1, 2, a3MessageTypeBase, 0, []⟩, 0⟩ 10 0) _ _ trivial trivial rfl
  have claimed := @reachable_after _ inserted (.claimNext 1) _ _ rfl trivial rfl
  have acked := @reachable_after _ claimed (.ack 7) _ _ trivial trivial rfl
  have reused := @reachable_after _ acked
    (.insertTracked ⟨⟨8, 1, 2, a3MessageTypeBase, 0, []⟩, 1⟩ 10 0) _ _ trivial trivial rfl
  have reclaimed := @reachable_after _ reused (.claimNext 2) _ _ rfl trivial rfl
  obtain ⟨state, reached, outstanding, holder, writing⟩ : ∃ state, system.Reachable state ∧
      state.outstanding 1 = some (0, ⟨⟨.a3, 0⟩, ⟨7, 1, .tracked⟩, 1, 10,
        .message 7 ⟨7, 1, 2, a3MessageTypeBase, 0, []⟩⟩) ∧
      state.holder ⟨.a3, 0⟩ = some 1 ∧
      (state.store.slot ⟨.a3, 0⟩).map RetainedSlot.state = some (.writing 2) :=
    ⟨_, reclaimed, rfl, rfl, rfl⟩
  refine ⟨state, _, reached, outstanding, writing, ?_⟩
  rcases stale_completion_harmless reached outstanding with ⟨holds, _⟩ | ⟨_, harmless⟩
  · cases holder.symm.trans holds
  · exact harmless

end Leased

end AureliaPeering.Store
