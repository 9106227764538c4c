import AureliaPeering.Lib.HashMap
import AureliaPeering.Lib.Machine
import AureliaPeering.Lib.Slots

/-!
The callbacks that outbound authentication waits for, in the TCP and in the socket backend.

An attempt registers its nonce before it writes its first message, and removes the entry only when
its wait for the callback fails.  A write error, or a dial that is dropped, leaves the entry behind.
-/

namespace AureliaPeering.Auth

open Collections List Option

/-- `reply` is the attempt that has the receiving end. -/
structure PendingCallback (E : Type) where
  expected : E
  reply : Nat

inductive AttemptPhase where
  /-- The nonce is drawn, and the table not yet locked. -/
  | registering
  /-- Up to the end of the write of the first message. -/
  | writing
  | awaiting
  /-- The wait has failed, and the table is not yet locked. -/
  | clearing
  /-- The callback has arrived: the challenge and the proof. -/
  | proving
  | ended
deriving DecidableEq

def AttemptPhase.registered : AttemptPhase → Bool
  | .writing | .awaiting | .clearing => true
  | .registering | .proving | .ended => false

/-- `reply` is what the channel of the callback holds. -/
structure Attempt (K E R : Type) where
  nonce : K
  expected : E
  phase : AttemptPhase
  reply : Option R

structure CallbackRendezvous (K E R : Type) where
  pending : HashMap K (PendingCallback E)
  attempts : List (Attempt K E R)

inductive CallbackLabel (K E R : Type) where
  | start (nonce : K) (expected : E)
  | register (index : Nat)
  | write (index : Nat) (written : Bool)
  /-- The timer is over, or the sending end was dropped. -/
  | timeout (index : Nat)
  | clear (index : Nat)
  | receive (index : Nat)
  /-- The challenge or the proof fails, or both succeed. -/
  | finish (index : Nat)
  /-- An outer timeout drops the dial. -/
  | drop (index : Nat)
  /-- An inbound connection presents a callback. -/
  | fulfill (key : K) (validate : E → Bool) (reply : R)

namespace CallbackRendezvous

variable {K E R : Type} [DecidableEq K]
  (state : CallbackRendezvous K E R)

/-- One attempt changes, with its entry in the table. -/
def turn (index : Nat) (ready : Attempt K E R → Bool)
    (change : Attempt K E R → Attempt K E R)
    (pending : Attempt K E R → HashMap K (PendingCallback E)) :
    Option (CallbackRendezvous K E R) :=
  (state.attempts[index]?).bind fun attempt =>
    if ready attempt then some ⟨pending attempt, state.attempts.set index (change attempt)⟩
    else none

def step : CallbackLabel K E R → Option (CallbackRendezvous K E R)
  | .start nonce expected =>
    some { state with attempts := state.attempts ++ [⟨nonce, expected, .registering, none⟩] }
  | .register index =>
    state.turn index (·.phase = .registering) ({ · with phase := .writing, reply := none })
      fun attempt => state.pending.insert attempt.nonce ⟨attempt.expected, index⟩
  | .write index written =>
    state.turn index (·.phase = .writing)
      ({ · with phase := if written then .awaiting else .ended }) fun _ => state.pending
  | .timeout index =>
    state.turn index (fun attempt => attempt.phase = .awaiting ∧ attempt.reply.isNone)
      ({ · with phase := .clearing }) fun _ => state.pending
  | .clear index =>
    state.turn index (·.phase = .clearing) ({ · with phase := .ended })
      fun attempt => state.pending.erase attempt.nonce
  | .receive index =>
    state.turn index (fun attempt => attempt.phase = .awaiting ∧ attempt.reply.isSome)
      ({ · with phase := .proving }) fun _ => state.pending
  | .finish index =>
    state.turn index (·.phase = .proving) ({ · with phase := .ended }) fun _ => state.pending
  | .drop index =>
    state.turn index (fun _ => true) ({ · with phase := .ended }) fun _ => state.pending
  | .fulfill key validate reply =>
    match state.pending.lookup key with
    | none => some state
    | some entry =>
      if validate entry.expected then
        state.turn entry.reply (fun _ => true) ({ · with reply := some reply })
          fun _ => state.pending.erase key
      else some { state with pending := state.pending.erase key }

def system : Machine.System (CallbackRendezvous K E R)
    (CallbackLabel K E R) :=
  .ofStep (· = ⟨∅, []⟩) step

/-- The nonces are distinct, the first message is written, and a dial is dropped only before the
registration or after the callback. -/
def Unbroken : CallbackLabel K E R → Prop
  | .start nonce _ => ∀ attempt ∈ state.attempts, attempt.nonce ≠ nonce
  | .write _ written => written = true
  | .drop index => ∀ attempt ∈ state.attempts[index]?, attempt.phase.registered = false
  | _ => True

instance (label : CallbackLabel K E R) : Decidable (state.Unbroken label) := by
  unfold Unbroken
  split <;> infer_instance

/-- The attempt takes the step, or its callback arrives. -/
def Concerns (attempt : Attempt K E R) (index : Nat) :
    CallbackLabel K E R → Prop
  | .start _ _ => False
  | .register taken | .write taken _ | .timeout taken | .clear taken | .receive taken
  | .finish taken | .drop taken => taken = index
  | .fulfill key _ _ => attempt.nonce = key

/-- Every entry belongs to the attempt that registered it and still needs it. -/
structure Owned : Prop where
  nonces : ∀ (first second : Nat) (one two : Attempt K E R),
    state.attempts[first]? = some one → state.attempts[second]? = some two →
    one.nonce = two.nonce → first = second
  held : ∀ key entry, state.pending.lookup key = some entry →
    ∃ attempt, state.attempts[entry.reply]? = some attempt ∧ attempt.nonce = key ∧
      attempt.phase.registered = true ∧ attempt.reply = none

variable {state} {next : CallbackRendezvous K E R} {index : Nat}
  {attempt : Attempt K E R} {label : CallbackLabel K E R}

omit [DecidableEq K] in
theorem turn_eq_some {ready : Attempt K E R → Bool}
    {change : Attempt K E R → Attempt K E R}
    {pending : Attempt K E R → HashMap K (PendingCallback E)}
    (turned : state.turn index ready change pending = some next) :
    ∃ attempt, state.attempts[index]? = some attempt ∧ ready attempt = true ∧
      next = ⟨pending attempt, state.attempts.set index (change attempt)⟩ := by
  obtain ⟨attempt, found, work⟩ := bind_eq_some_iff.mp turned
  obtain ⟨isReady, ⟨⟩⟩ := ite_none_right_eq_some.mp work
  exact ⟨attempt, found, isReady, rfl⟩

section Owned

variable (owned : state.Owned)

include owned

variable (found : state.attempts[index]? = some attempt)

include found

/-- What a turn leaves in the table is of an attempt that still needs it. -/
theorem Owned.turn {changed : Attempt K E R} (nonce : changed.nonce = attempt.nonce)
    {pending : HashMap K (PendingCallback E)}
    (held : ∀ key entry, pending.lookup key = some entry →
      (entry.reply = index → attempt.nonce = key → changed.phase.registered = true ∧
        changed.reply = none) ∧
      (state.pending.lookup key = some entry ∨ entry.reply = index ∧ attempt.nonce = key)) :
    Owned ⟨pending, state.attempts.set index changed⟩ where
  nonces first second one two isOne isTwo same := by
    have before {place : Nat} {later : Attempt K E R}
        (isLater : (state.attempts.set index changed)[place]? = some later) :
        ∃ was, state.attempts[place]? = some was ∧ was.nonce = later.nonce := by
      rcases Slots.of_getElem?_set isLater with ⟨rfl, rfl⟩ | was
      · exact ⟨attempt, found, nonce.symm⟩
      · exact ⟨later, was.2, rfl⟩
    obtain ⟨oneWas, wasOne, oneNonce⟩ := before isOne
    obtain ⟨twoWas, wasTwo, twoNonce⟩ := before isTwo
    exact owned.nonces first second oneWas twoWas wasOne wasTwo
      (oneNonce.trans (same.trans twoNonce.symm))
  held key entry isEntry := by
    have isChanged : (state.attempts.set index changed)[index]? = some changed :=
      getElem?_set_self (List.getElem?_eq_some_iff.mp found).choose
    obtain ⟨needs, isOld | ⟨rfl, isKey⟩⟩ := held key entry isEntry
    · obtain ⟨holder, isHolder, isKey, holds⟩ := owned.held key entry isOld
      by_cases same : entry.reply = index
      · subst same
        cases found.symm.trans isHolder
        exact ⟨changed, isChanged, nonce.trans isKey, needs rfl isKey⟩
      · exact ⟨holder, (getElem?_set_ne (Ne.symm same)).trans isHolder, isKey, holds⟩
    · exact ⟨changed, isChanged, nonce.trans isKey, needs rfl isKey⟩

theorem Owned.turn_same {changed : Attempt K E R} (nonce : changed.nonce = attempt.nonce)
    (needs : attempt.phase.registered = true → attempt.reply = none →
      changed.phase.registered = true ∧ changed.reply = none) :
    Owned ⟨state.pending, state.attempts.set index changed⟩ := by
  refine owned.turn found nonce fun key entry isEntry => ⟨fun same _ => ?_, .inl isEntry⟩
  obtain ⟨holder, isHolder, _, registered, empty⟩ := owned.held key entry isEntry
  subst same
  cases found.symm.trans isHolder
  exact needs registered empty

theorem Owned.turn_erase {changed : Attempt K E R} (nonce : changed.nonce = attempt.nonce) :
    Owned ⟨state.pending.erase attempt.nonce, state.attempts.set index changed⟩ := by
  refine owned.turn found nonce fun key entry isEntry => ?_
  rw [HashMap.lookup_erase_eq] at isEntry
  obtain ⟨apart, isOld⟩ := ite_none_left_eq_some.mp isEntry
  exact ⟨fun _ isKey => absurd isKey.symm apart, .inl isOld⟩

omit found

theorem Owned.step (stepped : state.step label = some next) (unbroken : state.Unbroken label) :
    next.Owned := by
  cases label with
  | start nonce expected =>
    cases stepped
    refine ⟨fun first second one two isOne isTwo same => ?_, fun key entry isEntry => ?_⟩
    · have listed {place : Nat} {attempt : Attempt K E R}
          (found : state.attempts[place]? = some attempt) (isNew : attempt.nonce = nonce) : False :=
        unbroken attempt (List.mem_of_getElem? found) isNew
      rcases Slots.getElem?_concat_eq_some.mp isOne with wasOne | ⟨isLast, rfl⟩
      · rcases Slots.getElem?_concat_eq_some.mp isTwo with wasTwo | ⟨_, rfl⟩
        · exact owned.nonces first second one two wasOne wasTwo same
        · exact (listed wasOne same).elim
      · rcases Slots.getElem?_concat_eq_some.mp isTwo with wasTwo | ⟨alsoLast, _⟩
        · exact (listed wasTwo same.symm).elim
        · exact isLast.trans alsoLast.symm
    · obtain ⟨holder, isHolder, holds⟩ := owned.held key entry isEntry
      exact ⟨holder, Slots.getElem?_concat_eq_some.mpr (.inl isHolder), holds⟩
  | register index =>
    obtain ⟨attempt, found, _, rfl⟩ := turn_eq_some stepped
    refine owned.turn found ?_ fun key entry isEntry => ⟨fun _ _ => ⟨?_, ?_⟩, ?_⟩
    · rfl
    · rfl
    · rfl
    rw [HashMap.lookup_insert_eq] at isEntry
    split at isEntry
    · rename_i isKey
      cases isEntry
      exact .inr ⟨rfl, isKey.symm⟩
    · exact .inl isEntry
  | write index written =>
    obtain ⟨attempt, found, _, rfl⟩ := turn_eq_some stepped
    refine owned.turn_same found rfl fun _ empty => ⟨?_, empty⟩
    rw [show written = true from unbroken]
    rfl
  | timeout index =>
    obtain ⟨attempt, found, _, rfl⟩ := turn_eq_some stepped
    exact owned.turn_same found rfl fun _ empty => ⟨rfl, empty⟩
  | clear index =>
    obtain ⟨attempt, found, _, rfl⟩ := turn_eq_some stepped
    exact owned.turn_erase found rfl
  | receive index =>
    obtain ⟨attempt, found, ready, rfl⟩ := turn_eq_some stepped
    refine owned.turn_same found rfl fun _ empty => ?_
    simp [empty] at ready
  | finish index =>
    obtain ⟨attempt, found, ready, rfl⟩ := turn_eq_some stepped
    refine owned.turn_same found rfl fun registered _ => ?_
    rw [of_decide_eq_true ready] at registered
    cases registered
  | drop index =>
    obtain ⟨attempt, found, _, rfl⟩ := turn_eq_some stepped
    refine owned.turn_same found rfl fun registered _ => ?_
    cases (unbroken attempt found).symm.trans registered
  | fulfill key validate reply =>
    simp only [CallbackRendezvous.step] at stepped
    split at stepped
    · cases stepped
      exact owned
    · rename_i entry isEntry
      obtain ⟨holder, isHolder, rfl, _⟩ := owned.held key entry isEntry
      split at stepped
      · obtain ⟨attempt, found, _, rfl⟩ := turn_eq_some stepped
        cases isHolder.symm.trans found
        exact owned.turn_erase found rfl
      · cases stepped
        refine ⟨owned.nonces, fun other left isLeft => ?_⟩
        rw [HashMap.lookup_erase_eq] at isLeft
        exact owned.held other left (ite_none_left_eq_some.mp isLeft).2

theorem Owned.spares (stepped : state.step label = some next)
    (found : state.attempts[index]? = some attempt) (other : ¬Concerns attempt index label) :
    next.attempts[index]? = some attempt ∧
      next.pending.lookup attempt.nonce = state.pending.lookup attempt.nonce := by
  have apart {taken : Nat} {holder : Attempt K E R}
      (isHolder : state.attempts[taken]? = some holder) (elsewhere : taken ≠ index) :
      attempt.nonce ≠ holder.nonce := fun same =>
    elsewhere (owned.nonces taken index holder attempt isHolder found same.symm)
  cases label with
  | start nonce expected =>
    cases stepped
    exact ⟨Slots.getElem?_concat_eq_some.mpr (.inl found), rfl⟩
  | register taken =>
    obtain ⟨holder, isHolder, _, rfl⟩ := turn_eq_some stepped
    exact ⟨(getElem?_set_ne other).trans found, AList.lookup_insert_ne (apart isHolder other)⟩
  | clear taken =>
    obtain ⟨holder, isHolder, _, rfl⟩ := turn_eq_some stepped
    exact ⟨(getElem?_set_ne other).trans found, AList.lookup_erase_ne (apart isHolder other)⟩
  | write taken _ | timeout taken | receive taken | finish taken | drop taken =>
    obtain ⟨holder, isHolder, _, rfl⟩ := turn_eq_some stepped
    exact ⟨(getElem?_set_ne other).trans found, rfl⟩
  | fulfill key validate reply =>
    simp only [CallbackRendezvous.step] at stepped
    split at stepped
    · cases stepped
      exact ⟨found, rfl⟩
    · rename_i entry isEntry
      split at stepped
      · obtain ⟨holder, isHolder, _, rfl⟩ := turn_eq_some stepped
        obtain ⟨_, isAnswered, isKey, _⟩ := owned.held key entry isEntry
        cases isHolder.symm.trans isAnswered
        have elsewhere : entry.reply ≠ index := by
          rintro rfl
          cases found.symm.trans isHolder
          exact other isKey
        exact ⟨(getElem?_set_ne elsewhere).trans found, AList.lookup_erase_ne other⟩
      · cases stepped
        exact ⟨found, AList.lookup_erase_ne other⟩

end Owned

theorem owned_reachable (reached : (system.restrict Unbroken).Reachable state) : state.Owned := by
  refine reached.invariant ?_ ?_
  · rintro _ rfl
    exact ⟨by simp, by simp⟩
  · rintro _ _ _ owned ⟨stepped, unbroken⟩
    exact owned.step stepped unbroken

/-- An attempt that has ended has no entry left, and no step of an attempt, nor a callback for it,
touches the entry or the channel of another. -/
theorem callback_entry_removed (reached : (system.restrict Unbroken).Reachable state) :
    (∀ (index : Nat) attempt, state.attempts[index]? = some attempt → attempt.phase = .ended →
      state.pending.lookup attempt.nonce = none) ∧
    ∀ label next, system.Step state label next → ∀ (index : Nat) attempt,
      state.attempts[index]? = some attempt → ¬Concerns attempt index label →
      next.attempts[index]? = some attempt ∧
        next.pending.lookup attempt.nonce = state.pending.lookup attempt.nonce := by
  have owned := owned_reachable reached
  refine ⟨fun index attempt found ended => ?_, fun label next stepped index attempt found other =>
    owned.spares stepped found other⟩
  cases isEntry : state.pending.lookup attempt.nonce with
  | none => rfl
  | some entry =>
    obtain ⟨holder, isHolder, nonce, registered, _⟩ := owned.held _ entry isEntry
    have same := owned.nonces entry.reply index holder attempt isHolder found nonce
    rw [same, found] at isHolder
    cases isHolder
    rw [ended] at registered
    cases registered

/-- The wait of one attempt fails while another one is registered. -/
theorem callback_entry_removed_timeout :
    ∃ state : CallbackRendezvous Nat Nat Nat, (system.restrict Unbroken).Reachable state ∧
      state.pending.lookup 7 = none ∧ (state.pending.lookup 8).isSome = true := by
  obtain ⟨state, reached, ended, other⟩ :
      ∃ state : CallbackRendezvous Nat Nat Nat, (system.restrict Unbroken).Reachable state ∧
        (state.attempts[0]?).map (fun attempt : Attempt Nat Nat Nat =>
          (attempt.nonce, attempt.phase)) = some (7, .ended) ∧
        (state.pending.lookup 8).isSome = true :=
    Machine.System.exists_guarded [.start 7 0, .register 0, .start 8 0, .write 0 true, .register 1,
      .timeout 0, .clear 0] rfl (by decide)
  obtain ⟨attempt, found, holds⟩ := Option.map_eq_some_iff.mp ended
  obtain ⟨nonce, isEnded⟩ := Prod.mk.inj holds
  have removed := (callback_entry_removed reached).1 0 attempt found isEnded
  exact ⟨state, reached, nonce ▸ removed, other⟩

/-- A dial that is dropped in its wait, and one whose first write fails, leave their entries. -/
theorem dropped_dial_leaves_callback :
    ∃ state : CallbackRendezvous Nat Nat Nat, system.Reachable state ∧
      (state.attempts.all fun attempt => attempt.phase = .ended) = true ∧
      (state.pending.lookup 7).isSome = true ∧ (state.pending.lookup 8).isSome = true :=
  Machine.System.exists_reachable [.start 7 0, .register 0, .write 0 true, .drop 0, .start 8 0,
    .register 1, .write 1 false] rfl (by decide)

end CallbackRendezvous

end AureliaPeering.Auth
