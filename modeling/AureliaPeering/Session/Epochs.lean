import AureliaPeering.Session.PeerSession

/-!
Which begin answers for an entry of the dedupe state.

The waiter of a begin that returned `New` completes or abandons it at any later time, also after
a handshake has emptied the dedupe state.  The source keeps no session counter, so the ledger
beside the session is an account of the run and no operation reads it: the begins still
undecided, those completed successfully since the last clear, and the ids on which a begin from
before that clear was completed or abandoned after it.
-/

namespace AureliaPeering.Session

open Store List Option

/-- A begin that returned `New`: its place among all begins and the clears before it. -/
structure Owner where
  number : Nat
  peerMsgId : PeerMessageId
  epoch : Nat
deriving DecidableEq, Repr

structure Ledger where
  session : PeerSession
  clears : Nat
  begins : Nat
  undecided : List Owner
  accepted : List Owner
  crossed : List PeerMessageId

inductive Call where
  | begin (peerMsgId : PeerMessageId)
  | complete (owner : Owner) (result : Except AureliaError Unit) (sendQueueSize : Nat)
  | abandon (owner : Owner)
  | hello (call : HelloCall)

namespace Ledger

def start (session : PeerSession) : Ledger := ⟨session, 0, 0, [], [], []⟩

def begin (ledger : Ledger) (peerMsgId : PeerMessageId) : Ledger :=
  let (answer, dedupe) := ledger.session.dedupe.dedupeBegin peerMsgId ledger.begins
  { ledger with
    session := { ledger.session with dedupe := dedupe }
    begins := ledger.begins + 1
    undecided :=
      if answer = .new then ledger.undecided ++ [⟨ledger.begins, peerMsgId, ledger.clears⟩]
      else ledger.undecided }

/-- An owner is decided: the dedupe state it leaves, and whether it was completed successfully. -/
def decide (ledger : Ledger) (owner : Owner) (dedupe : DedupeState) (accepted : Bool) : Ledger :=
  { ledger with
    session := { ledger.session with dedupe := dedupe }
    undecided := ledger.undecided.erase owner
    accepted := if accepted then ledger.accepted ++ [owner] else ledger.accepted
    crossed :=
      if owner.epoch = ledger.clears then ledger.crossed else owner.peerMsgId :: ledger.crossed }

def hello (ledger : Ledger) (call : HelloCall) : Ledger :=
  let session := call.apply ledger.session
  if call.clears ledger.session then
    ⟨session, ledger.clears + 1, ledger.begins, ledger.undecided, [], []⟩
  else { ledger with session := session }

/-- Only a waiter that has not decided yet completes or abandons its begin. -/
def step (ledger : Ledger) : Call → Option Ledger
  | .begin peerMsgId => some (ledger.begin peerMsgId)
  | .complete owner result sendQueueSize =>
    if owner ∈ ledger.undecided then
      some (ledger.decide owner
        (ledger.session.dedupe.dedupeComplete sendQueueSize owner.peerMsgId result).2
        (result matches .ok _))
    else none
  | .abandon owner =>
    if owner ∈ ledger.undecided then
      some (ledger.decide owner (ledger.session.dedupe.dedupeAbandon owner.peerMsgId).2 false)
    else none
  | .hello call => some (ledger.hello call)

/-- A new session, over any retained store. -/
def system : Machine.System Ledger Call :=
  .ofStep (fun ledger => ∃ dispatch, ledger = start (PeerSession.new dispatch)) step

/-- An id has an undecided begin from after the last clear. -/
def Current (ledger : Ledger) (peerMsgId : PeerMessageId) (owner : Owner) : Prop :=
  owner ∈ ledger.undecided ∧ owner.epoch = ledger.clears ∧ owner.peerMsgId = peerMsgId

structure Invariant (ledger : Ledger) : Prop where
  distinct : ledger.undecided.Nodup
  issued : ∀ owner ∈ ledger.undecided, owner.number < ledger.begins ∧ owner.epoch ≤ ledger.clears
  recorded : ∀ peerMsgId ∈ ledger.session.dedupe.set,
    ∃ owner ∈ ledger.accepted, owner.peerMsgId = peerMsgId
  tagged : ∀ owner ∈ ledger.accepted,
    owner.epoch = ledger.clears ∨ owner.peerMsgId ∈ ledger.crossed
  pending : ∀ peerMsgId, peerMsgId ∉ ledger.crossed →
    ((ledger.session.dedupe.pending.lookup peerMsgId).isSome ↔
      ∃ owner, ledger.Current peerMsgId owner)
  single : ∀ peerMsgId, peerMsgId ∉ ledger.crossed → ∀ owner other,
    ledger.Current peerMsgId owner → ledger.Current peerMsgId other → owner = other

variable {ledger : Ledger} {dedupe : DedupeState}

theorem start_invariant (dispatch : RetainedStore) :
    (start (PeerSession.new dispatch)).Invariant := by
  refine ⟨nodup_nil, ?_, ?_, ?_, ?_, ?_⟩ <;>
  simp [start, PeerSession.new, Current]

variable (inv : ledger.Invariant)

include inv

theorem Invariant.of_same_owners (set_eq : dedupe.set = ledger.session.dedupe.set)
    (pending_eq : ∀ peerMsgId, (dedupe.pending.lookup peerMsgId).isSome =
      (ledger.session.dedupe.pending.lookup peerMsgId).isSome) :
    Invariant
      { ledger with
        session := { ledger.session with dedupe := dedupe }
        begins := ledger.begins + 1 } :=
  { inv with
    issued owner listed :=
      ⟨Nat.lt_succ_of_lt (inv.issued owner listed).1, (inv.issued owner listed).2⟩
    recorded peerMsgId membership := inv.recorded peerMsgId (set_eq ▸ membership)
    pending peerMsgId untouched := by
      rw [pending_eq]
      exact inv.pending peerMsgId untouched }

/-- A begin that returns `New` creates the entry of its id and owns it. -/
theorem Invariant.of_new {peerMsgId : PeerMessageId}
    (vacant : ledger.session.dedupe.pending.lookup peerMsgId = none) :
    Invariant
      { ledger with
        session := { ledger.session with
          dedupe := { ledger.session.dedupe with
            pending := AList.insert peerMsgId [] ledger.session.dedupe.pending } }
        begins := ledger.begins + 1
        undecided := ledger.undecided ++ [⟨ledger.begins, peerMsgId, ledger.clears⟩] } := by
  have fresh : ∀ owner ∈ ledger.undecided, owner ≠ ⟨ledger.begins, peerMsgId, ledger.clears⟩ := by
    rintro owner listed rfl
    exact Nat.lt_irrefl _ (inv.issued _ listed).1
  -- Before the begin no undecided owner of this epoch has the id, unless the id was crossed.
  have unowned : peerMsgId ∉ ledger.crossed → ∀ owner, ¬ ledger.Current peerMsgId owner := by
    intro untouched owner current
    have present := (inv.pending peerMsgId untouched).mpr ⟨owner, current⟩
    simp [vacant] at present
  refine ⟨?_, ?_, inv.recorded, inv.tagged, ?_, ?_⟩
  · rw [nodup_append]
    refine ⟨inv.distinct, nodup_singleton _, ?_⟩
    rintro owner listed _ here rfl
    exact fresh owner listed (mem_singleton.mp here)
  · intro owner listed
    rcases mem_append.mp listed with old | here
    · exact ⟨Nat.lt_succ_of_lt (inv.issued owner old).1, (inv.issued owner old).2⟩
    · rw [mem_singleton.mp here]
      exact ⟨Nat.lt_succ_self _, le_rfl⟩
  · intro other untouched
    simp only [Collections.HashMap.lookup_insert_eq]
    by_cases same : other = peerMsgId
    · subst same
      simp only [if_pos, isSome_some, true_iff]
      exact ⟨⟨ledger.begins, other, ledger.clears⟩, by simp, rfl, rfl⟩
    · simp only [if_neg same, inv.pending other untouched, Current, mem_append,
        mem_singleton]
      constructor
      · rintro ⟨owner, listed, current⟩
        exact ⟨owner, .inl listed, current⟩
      · rintro ⟨owner, old | rfl, epoch_eq, id_eq⟩
        · exact ⟨owner, old, epoch_eq, id_eq⟩
        · exact absurd id_eq.symm same
  · rintro other untouched first second ⟨first_listed, first_rest⟩ ⟨second_listed, second_rest⟩
    rcases mem_append.mp first_listed with first_old | first_here <;>
    rcases mem_append.mp second_listed with second_old | second_here
    · exact inv.single other untouched first second ⟨first_old, first_rest⟩
        ⟨second_old, second_rest⟩
    · have id_eq : other = peerMsgId := by
        rw [← second_rest.2, mem_singleton.mp second_here]
      subst id_eq
      exact absurd ⟨first_old, first_rest⟩ (unowned untouched first)
    · have id_eq : other = peerMsgId := by
        rw [← first_rest.2, mem_singleton.mp first_here]
      subst id_eq
      exact absurd ⟨second_old, second_rest⟩ (unowned untouched second)
    · rw [mem_singleton.mp first_here, mem_singleton.mp second_here]

theorem begin_invariant (peerMsgId : PeerMessageId) : (ledger.begin peerMsgId).Invariant := by
  rcases ledger.session.dedupe.dedupeBegin_cases peerMsgId ledger.begins with
    ⟨_, taken⟩ | ⟨_, _, found, taken⟩ | ⟨_, vacant, taken⟩
  · simp only [begin, taken]
    exact inv.of_same_owners rfl fun _ => rfl
  · simp only [begin, taken]
    refine inv.of_same_owners rfl fun other => ?_
    simp only [Collections.HashMap.lookup_insert_eq]
    split
    · rename_i same
      subst same
      simp [found]
    · rfl
  · simp only [begin, taken]
    exact inv.of_new vacant

theorem decide_invariant {owner : Owner} (listed : owner ∈ ledger.undecided) {accepted : Bool}
    (set_sub : ∀ peerMsgId ∈ dedupe.set, peerMsgId ∈ ledger.session.dedupe.set ∨
      (accepted = true ∧ peerMsgId = owner.peerMsgId))
    (pending_eq : ∀ peerMsgId, dedupe.pending.lookup peerMsgId =
      if peerMsgId = owner.peerMsgId then none
      else ledger.session.dedupe.pending.lookup peerMsgId) :
    (ledger.decide owner dedupe accepted).Invariant := by
  have erased : ∀ other, other ∈ ledger.undecided.erase owner ↔
      other ≠ owner ∧ other ∈ ledger.undecided := fun other => inv.distinct.mem_erase_iff
  have untouched_before : ∀ peerMsgId, peerMsgId ∉ (ledger.decide owner dedupe accepted).crossed →
      peerMsgId ∉ ledger.crossed := by
    intro peerMsgId untouched crossed
    refine untouched ?_
    simp only [decide]
    split
    · exact crossed
    · exact mem_cons_of_mem _ crossed
  refine ⟨inv.distinct.erase owner, ?_, ?_, ?_, ?_, ?_⟩
  · intro other membership
    exact inv.issued other ((erased other).mp membership).2
  · intro peerMsgId membership
    rcases set_sub peerMsgId membership with old | ⟨completed, rfl⟩
    · obtain ⟨holder, known, id_eq⟩ := inv.recorded peerMsgId old
      refine ⟨holder, ?_, id_eq⟩
      simp only [decide]
      split
      · exact mem_append_left _ known
      · exact known
    · exact ⟨owner, by simp [decide, completed], rfl⟩
  · intro other membership
    have origin : other ∈ ledger.accepted ∨ other = owner := by
      simp only [decide] at membership
      split at membership
      · simpa using membership
      · exact .inl membership
    simp only [decide]
    rcases origin with old | rfl
    · refine (inv.tagged other old).imp_right fun crossed => ?_
      split
      · exact crossed
      · exact mem_cons_of_mem _ crossed
    · by_cases current : other.epoch = ledger.clears
      · exact .inl current
      · exact .inr (by simp [current])
  · intro peerMsgId untouched
    have before := untouched_before peerMsgId untouched
    simp only [decide, Current, erased, pending_eq]
    by_cases same : peerMsgId = owner.peerMsgId
    · subst same
      simp only [if_pos, isSome_none, Bool.false_eq_true, false_iff]
      -- The owner is of this epoch, for its id is not crossed; it was the only one.
      have current : owner.epoch = ledger.clears := by
        by_contra stale
        exact untouched (by simp [decide, stale])
      rintro ⟨other, ⟨different, membership⟩, epoch_eq, id_eq⟩
      exact different (inv.single _ before other owner ⟨membership, epoch_eq, id_eq⟩
        ⟨listed, current, rfl⟩)
    · rw [if_neg same, inv.pending peerMsgId before]
      constructor
      · rintro ⟨other, membership, epoch_eq, id_eq⟩
        refine ⟨other, ⟨?_, membership⟩, epoch_eq, id_eq⟩
        rintro rfl
        exact same id_eq.symm
      · rintro ⟨other, ⟨_, membership⟩, rest⟩
        exact ⟨other, membership, rest⟩
  · rintro peerMsgId untouched first second ⟨first_listed, first_rest⟩ ⟨second_listed, second_rest⟩
    exact inv.single peerMsgId (untouched_before peerMsgId untouched) first second
      ⟨((erased first).mp first_listed).2, first_rest⟩
      ⟨((erased second).mp second_listed).2, second_rest⟩

theorem hello_invariant (call : HelloCall) : (ledger.hello call).Invariant := by
  have dedupe_eq := call.apply_dedupe ledger.session
  simp only [hello]
  cases cleared : call.clears ledger.session with
  | true =>
    simp only [cleared, if_pos] at dedupe_eq
    refine ⟨inv.distinct, ?_, ?_, ?_, ?_, ?_⟩
    · intro owner listed
      exact ⟨(inv.issued owner listed).1, Nat.le_succ_of_le (inv.issued owner listed).2⟩
    · simp [dedupe_eq]
    · simp
    · intro peerMsgId _
      simp only [if_pos, dedupe_eq, DedupeState.lookup_new_pending, isSome_none,
        Bool.false_eq_true, false_iff]
      rintro ⟨owner, listed, epoch_eq, _⟩
      exact Nat.not_succ_le_self _ (epoch_eq ▸ (inv.issued owner listed).2)
    · rintro peerMsgId _ owner _ ⟨listed, epoch_eq, _⟩ _
      exact absurd (epoch_eq ▸ (inv.issued owner listed).2) (Nat.not_succ_le_self _)
  | false =>
    simp only [cleared, Bool.false_eq_true, if_false] at dedupe_eq ⊢
    refine ⟨inv.distinct, inv.issued, ?_, inv.tagged, ?_, inv.single⟩
    · simpa [dedupe_eq] using inv.recorded
    · intro peerMsgId untouched
      simp only [dedupe_eq]
      exact inv.pending peerMsgId untouched

omit inv

theorem set_dedupeComplete (state : DedupeState) (sendQueueSize : Nat)
    (peerMsgId : PeerMessageId) (result : Except AureliaError Unit) :
    ∀ known ∈ (state.dedupeComplete sendQueueSize peerMsgId result).2.set,
      known ∈ state.set ∨ (result matches .ok _) = true ∧ known = peerMsgId := by
  intro known membership
  cases result with
  | ok =>
    have origin := state.dedupeComplete_set_subset sendQueueSize peerMsgId (.ok ()) membership
    exact (Finset.mem_insert.mp origin).symm.imp_right fun same => ⟨rfl, same⟩
  | error => exact .inl membership

theorem step_invariant {next : Ledger} {call : Call} (inv : ledger.Invariant)
    (taken : ledger.step call = some next) : next.Invariant := by
  cases call with
  | begin peerMsgId =>
    cases taken
    exact begin_invariant inv peerMsgId
  | complete owner result sendQueueSize =>
    simp only [step, ite_none_right_eq_some, some.injEq] at taken
    obtain ⟨listed, rfl⟩ := taken
    exact decide_invariant inv listed (set_dedupeComplete _ _ _ result)
      fun peerMsgId => ledger.session.dedupe.dedupeComplete_lookup _ _ peerMsgId result
  | abandon owner =>
    simp only [step, ite_none_right_eq_some, some.injEq] at taken
    obtain ⟨listed, rfl⟩ := taken
    exact decide_invariant inv listed (fun _ membership => .inl membership)
      fun peerMsgId => ledger.session.dedupe.removePending_lookup owner.peerMsgId peerMsgId
  | hello call =>
    cases taken
    exact hello_invariant inv call

theorem reachable_invariant (reached : system.Reachable ledger) :
    ledger.Invariant :=
  @Machine.System.Reachable.invariant _ _ system Invariant
    (by rintro _ ⟨dispatch, rfl⟩; exact start_invariant dispatch)
    (fun _ _ _ inv taken => step_invariant inv taken) _ reached

end Ledger

end AureliaPeering.Session
