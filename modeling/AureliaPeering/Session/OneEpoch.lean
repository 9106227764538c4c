import Mathlib.Data.Finset.Card
import AureliaPeering.Session.Isolation

/-!
The dedupe state between two clears.

The account beside the ledger follows one history epoch: it starts at an empty dedupe state, and
no step of it is a clear or the decision of a begin from before the epoch.  It lists which
duplicates joined which undecided begin, how every begin was decided, every decision sent to a
duplicate, and the successful completions in their order, each with the limit it read.
-/

namespace AureliaPeering.Session

open Collections List Option

namespace Call

def decision : Call → Option (Owner × DedupeDecision)
  | .complete owner result _ => some (owner, DedupeState.decisionOf result)
  | .abandon owner => some (owner, .abandoned)
  | .begin _ | .hello _ => none

/-- The duplicate that a begin registers, with the undecided begins of its id. -/
def joins (ledger : Ledger) : Call → List (Owner × DecisionSender)
  | .begin peerMsgId =>
    match (ledger.session.dedupe.dedupeBegin peerMsgId ledger.begins).1 with
    | .pendingDuplicate sender =>
      (ledger.undecided.filter fun owner =>
        owner.peerMsgId = peerMsgId ∧ owner.epoch = ledger.clears).map fun owner =>
          (owner, sender)
    | .new | .duplicate _ => []
  | .complete .. | .abandon _ | .hello _ => []

/-- A successful completion, with the limit it read. -/
def records : Call → List (PeerMessageId × Nat)
  | .complete owner (.ok _) sendQueueSize => [(owner.peerMsgId, dedupeLimit sendQueueSize)]
  | .complete _ (.error _) _ | .abandon _ | .begin _ | .hello _ => []

/-- The calls that belong to the epoch: no clear, and no decision of an older begin. -/
def InEpoch (ledger : Ledger) : Call → Prop
  | .begin _ => True
  | .complete owner _ _ | .abandon owner => owner.epoch = ledger.clears
  | .hello call => call.clears ledger.session = false

instance (ledger : Ledger) (call : Call) : Decidable (call.InEpoch ledger) := by
  cases call <;> unfold InEpoch <;> infer_instance

end Call

variable {other : PeerMessageId} {ledger : Ledger} {owner : Owner}

theorem DedupeState.dedupeBegin_history (state : DedupeState) (peerMsgId : PeerMessageId)
    (sender : DecisionSender) :
    (state.dedupeBegin peerMsgId sender).2.set = state.set ∧
      (state.dedupeBegin peerMsgId sender).2.order = state.order := by
  rcases state.dedupeBegin_cases peerMsgId sender with
    ⟨_, taken⟩ | ⟨_, _, _, taken⟩ | ⟨_, _, taken⟩ <;>
  · rw [taken]
    exact ⟨rfl, rfl⟩

theorem DedupeState.dedupeBegin_lookup_of_mem (state : DedupeState) (peerMsgId : PeerMessageId)
    (sender : DecisionSender) (recorded : other ∈ state.set) :
    (state.dedupeBegin peerMsgId sender).2.pending.lookup other = state.pending.lookup other := by
  have different : peerMsgId ∉ state.set → other ≠ peerMsgId := by
    rintro absent rfl
    exact absent recorded
  rcases state.dedupeBegin_cases peerMsgId sender with
    ⟨_, taken⟩ | ⟨_, absent, _, taken⟩ | ⟨absent, _, taken⟩ <;>
  rw [taken]
  · simp only [HashMap.lookup_insert_eq, if_neg (different absent)]
  · simp only [HashMap.lookup_insert_eq, if_neg (different absent)]

theorem DedupeState.dedupeBegin_waiters (state : DedupeState) (peerMsgId other : PeerMessageId)
    (sender : DecisionSender) :
    (state.dedupeBegin peerMsgId sender).2.waiters other = state.waiters other ++
      if other = peerMsgId ∧ (state.dedupeBegin peerMsgId sender).1 = .pendingDuplicate sender
      then [sender] else [] := by
  rcases state.dedupeBegin_cases peerMsgId sender with
    ⟨_, taken⟩ | ⟨_, _, found, taken⟩ | ⟨_, vacant, taken⟩ <;>
  rw [taken]
  · simp
  · by_cases same : other = peerMsgId
    · subst same
      simp [waiters, found]
    · simp [waiters, same]
  · by_cases same : other = peerMsgId
    · subst same
      simp [waiters, vacant]
    · simp [waiters, same]

/-- An undecided begin stays undecided while others begin. -/
theorem Ledger.Current.begin (current : ledger.Current other owner) (peerMsgId : PeerMessageId) :
    (ledger.begin peerMsgId).Current other owner := by
  obtain ⟨listed, rest⟩ := current
  refine ⟨?_, rest⟩
  simp only [Ledger.begin]
  split
  · exact mem_append_left _ listed
  · exact listed

theorem Ledger.mem_undecided_begin {peerMsgId : PeerMessageId}
    (listed : owner ∈ (ledger.begin peerMsgId).undecided) :
    owner ∈ ledger.undecided ∨ owner.number = ledger.begins := by
  simp only [Ledger.begin] at listed
  split at listed
  · rcases mem_append.mp listed with old | here
    · exact .inl old
    · rw [mem_singleton.mp here]
      exact .inr rfl
  · exact .inl listed

structure Account where
  ledger : Ledger
  joined : List (Owner × DecisionSender)
  decided : List (Owner × DedupeDecision)
  answers : List Resolution
  recorded : List (PeerMessageId × Nat)

namespace Account

def start (ledger : Ledger) : Account := ⟨ledger, [], [], [], []⟩

def dedupe (account : Account) : DedupeState := account.ledger.session.dedupe

def after (account : Account) (call : Call) (ledger : Ledger) : Account where
  ledger := ledger
  joined := account.joined ++ call.joins account.ledger
  decided := account.decided ++ call.decision.toList
  answers := account.answers ++ call.resolutions account.dedupe
  recorded := account.recorded ++ call.records

def step (account : Account) (call : Call) : Option Account :=
  if call.InEpoch account.ledger then (account.ledger.step call).map (account.after call) else none

def system : Machine.System Account Call :=
  .ofStep (fun account => ∃ ledger, account = start ledger ∧ Ledger.system.Reachable ledger ∧
    ledger.session.dedupe = .new ∧ ledger.crossed = []) step

/-- What a begin leaves of the account. -/
structure Begins (account next : Account) (peerMsgId : PeerMessageId) : Prop where
  begins : next.ledger.begins = account.ledger.begins + 1
  crossed : next.ledger.crossed = account.ledger.crossed
  current : ∀ owner, account.ledger.Current owner.peerMsgId owner →
    next.ledger.Current owner.peerMsgId owner
  undecided : ∀ owner ∈ next.ledger.undecided,
    owner ∈ account.ledger.undecided ∨ owner.number = account.ledger.begins
  waiters : ∀ other, next.dedupe.waiters other = account.dedupe.waiters other ++
    if other = peerMsgId ∧ (account.dedupe.dedupeBegin peerMsgId account.ledger.begins).1 =
      .pendingDuplicate account.ledger.begins
    then [account.ledger.begins] else []
  lookup : ∀ other ∈ account.dedupe.set,
    next.dedupe.pending.lookup other = account.dedupe.pending.lookup other
  joined : next.joined = account.joined ++ (Call.begin peerMsgId).joins account.ledger
  decided : next.decided = account.decided
  answers : next.answers = account.answers

/-- What a decision leaves of the account. -/
structure Decides (account next : Account) (owner : Owner) (decision : DedupeDecision) : Prop where
  current : account.ledger.Current owner.peerMsgId owner
  clears : next.ledger.clears = account.ledger.clears
  begins : next.ledger.begins = account.ledger.begins
  undecided : next.ledger.undecided = account.ledger.undecided.erase owner
  crossed : next.ledger.crossed = account.ledger.crossed
  lookup : ∀ other, next.dedupe.pending.lookup other =
    if other = owner.peerMsgId then none else account.dedupe.pending.lookup other
  joined : next.joined = account.joined
  decided : next.decided = account.decided ++ [(owner, decision)]
  answers : next.answers = account.answers ++
    (account.dedupe.waiters owner.peerMsgId).map fun sender => (sender, decision)

/-- A handshake that clears nothing changes the session alone, and not its dedupe state. -/
def Passes (account next : Account) : Prop :=
  ∃ session, next = { account with ledger := { account.ledger with session } } ∧
    session.dedupe = account.dedupe

section Steps

variable {account next : Account} {call : Call}

theorem ledger_of_step (taken : account.step call = some next) :
    call.InEpoch account.ledger ∧ account.ledger.step call = some next.ledger := by
  obtain ⟨allowed, stepped⟩ := ite_none_right_eq_some.mp taken
  obtain ⟨_, performed, rfl⟩ := map_eq_some_iff.mp stepped
  exact ⟨allowed, performed⟩

/-- Everything a step can do to who waits for what. -/
theorem step_cases (taken : account.step call = some next) :
    (∃ peerMsgId, call = .begin peerMsgId ∧ account.Begins next peerMsgId) ∨
    (∃ owner decision, call.decision = some (owner, decision) ∧
      account.Decides next owner decision) ∨
    ((∃ hello, call = .hello hello) ∧ account.Passes next) := by
  obtain ⟨allowed, stepped⟩ := ite_none_right_eq_some.mp taken
  obtain ⟨_, performed, rfl⟩ := map_eq_some_iff.mp stepped
  cases call with
  | begin peerMsgId =>
    cases performed
    refine .inl ⟨peerMsgId, rfl, rfl, rfl, fun owner current => current.begin peerMsgId, ?_, ?_,
      ?_, rfl, append_nil _, append_nil _⟩
    · intro owner listed
      exact Ledger.mem_undecided_begin listed
    · intro other
      exact account.dedupe.dedupeBegin_waiters peerMsgId other account.ledger.begins
    · intro other recorded
      exact account.dedupe.dedupeBegin_lookup_of_mem peerMsgId account.ledger.begins recorded
  | complete owner result sendQueueSize =>
    obtain ⟨listed, ⟨⟩⟩ := ite_none_right_eq_some.mp performed
    exact .inr (.inl ⟨owner, _, rfl, ⟨listed, allowed, rfl⟩, rfl, rfl, rfl, if_pos allowed,
      fun other => account.dedupe.dedupeComplete_lookup sendQueueSize owner.peerMsgId other result,
      append_nil _, rfl, rfl⟩)
  | abandon owner =>
    obtain ⟨listed, ⟨⟩⟩ := ite_none_right_eq_some.mp performed
    exact .inr (.inl ⟨owner, _, rfl, ⟨listed, allowed, rfl⟩, rfl, rfl, rfl, if_pos allowed,
      account.dedupe.removePending_lookup owner.peerMsgId, append_nil _, rfl, rfl⟩)
  | hello hello =>
    cases performed
    have kept : hello.clears account.ledger.session = false := allowed
    have same := hello.apply_dedupe account.ledger.session
    rw [kept] at same
    have unchanged : account.ledger.hello hello =
        { account.ledger with session := hello.apply account.ledger.session } := by
      simp only [Ledger.hello, kept, Bool.false_eq_true, if_false]
    refine .inr (.inr ⟨⟨hello, rfl⟩, _, ?_, same⟩)
    simp [after, unchanged, Call.joins, Call.decision, Call.resolutions, Call.records]

theorem Decides.waiters {decision : DedupeDecision}
    (decides : account.Decides next owner decision) (other : PeerMessageId) :
    next.dedupe.waiters other =
      if other = owner.peerMsgId then [] else account.dedupe.waiters other := by
  rw [DedupeState.waiters, decides.lookup]
  split
  · rfl
  · rfl

end Steps

/-- The ledger of an account is one of the runs with clears, and nothing crossed its start. -/
structure Founded (account : Account) : Prop where
  reached : Ledger.system.Reachable account.ledger
  uncrossed : account.ledger.crossed = []

theorem step_founded {account next : Account} {call : Call} (founded : account.Founded)
    (taken : account.step call = some next) : next.Founded := by
  refine ⟨founded.reached.step (ledger_of_step taken).2, ?_⟩
  rcases step_cases taken with ⟨_, _, begins⟩ | ⟨_, _, _, decides⟩ | ⟨_, _, rfl, _⟩
  · exact begins.crossed.trans founded.uncrossed
  · exact decides.crossed.trans founded.uncrossed
  · exact founded.uncrossed

section Owners

variable {account : Account} {peerMsgId : PeerMessageId}

theorem Founded.pending (founded : account.Founded) (peerMsgId : PeerMessageId) :
    (account.dedupe.pending.lookup peerMsgId).isSome ↔
      ∃ owner, account.ledger.Current peerMsgId owner :=
  (Ledger.reachable_invariant founded.reached).pending peerMsgId (by simp [founded.uncrossed])

theorem Founded.single (founded : account.Founded) {owner other : Owner}
    (first : account.ledger.Current peerMsgId owner)
    (second : account.ledger.Current peerMsgId other) : owner = other :=
  (Ledger.reachable_invariant founded.reached).single peerMsgId (by simp [founded.uncrossed])
    owner other first second

theorem Founded.separate (founded : account.Founded) :
    account.dedupe.Separate account.ledger.begins :=
  Ledger.reachable_separate founded.reached

end Owners

def Answered (account : Account) (owner : Owner) (sender : DecisionSender) : Prop :=
  ∃ decision, (∀ other, (owner, other) ∈ account.decided ↔ other = decision) ∧
    (account.answers.filter fun answer => answer.1 = sender) = [(sender, decision)]

def Unanswered (account : Account) (owner : Owner) (sender : DecisionSender) : Prop :=
  account.ledger.Current owner.peerMsgId owner ∧ ∀ answer ∈ account.answers, answer.1 ≠ sender

/-- Who waits, who was answered and who was decided. -/
structure Waiting (account : Account) : Prop where
  distinct : ∀ peerMsgId, (account.dedupe.waiters peerMsgId).Nodup
  bounded : ∀ answer ∈ account.answers, answer.1 < account.ledger.begins
  unanswered : ∀ peerMsgId, ∀ sender ∈ account.dedupe.waiters peerMsgId,
    ∀ answer ∈ account.answers, answer.1 ≠ sender
  issued : ∀ entry ∈ account.decided,
    entry.1.number < account.ledger.begins ∧ entry.1 ∉ account.ledger.undecided
  joined : ∀ entry ∈ account.joined,
    (account.ledger.Current entry.1.peerMsgId entry.1 ∧
      entry.2 ∈ account.dedupe.waiters entry.1.peerMsgId) ∨
    account.Answered entry.1 entry.2

section Waiting

variable {account next : Account} {owner : Owner} {decision : DedupeDecision}
variable {peerMsgId : PeerMessageId} {waiters : List DecisionSender} {sender : DecisionSender}

theorem mem_joins_begin
    {entry : Owner × DecisionSender} (listed : entry ∈ (Call.begin peerMsgId).joins ledger) :
    entry.2 = ledger.begins ∧ entry.1.peerMsgId = peerMsgId ∧
      ledger.Current peerMsgId entry.1 ∧
      (ledger.session.dedupe.dedupeBegin peerMsgId ledger.begins).1 =
        .pendingDuplicate ledger.begins := by
  simp only [Call.joins] at listed
  rcases ledger.session.dedupe.dedupeBegin_cases peerMsgId ledger.begins with
    ⟨_, taken⟩ | ⟨_, _, _, taken⟩ | ⟨_, _, taken⟩ <;>
  rw [taken] at listed
  · cases listed
  · obtain ⟨_, chosen, rfl⟩ := mem_map.mp listed
    obtain ⟨undecided, tested⟩ := mem_filter.mp chosen
    obtain ⟨same, current⟩ := of_decide_eq_true tested
    exact ⟨rfl, same, ⟨undecided, current, same⟩, by rw [taken]⟩
  · cases listed

theorem begin_waiting (founded : account.Founded)
    (waiting : account.Waiting) (begins : account.Begins next peerMsgId) : next.Waiting := by
  have bounded := founded.separate.bounded
  have mem_waiters : ∀ other, ∀ sender ∈ next.dedupe.waiters other,
      sender ∈ account.dedupe.waiters other ∨ sender = account.ledger.begins := by
    intro other sender listed
    rw [begins.waiters] at listed
    rcases mem_append.mp listed with old | fresh
    · exact .inl old
    · split at fresh
      · exact .inr (mem_singleton.mp fresh)
      · cases fresh
  constructor
  · intro other
    rw [begins.waiters]
    split
    · rw [nodup_append]
      refine ⟨waiting.distinct other, nodup_singleton _, ?_⟩
      rintro sender listed _ here rfl
      have early := bounded other sender listed
      rw [mem_singleton.mp here] at early
      exact Nat.lt_irrefl _ early
    · simpa using waiting.distinct other
  · intro answer sent
    rw [begins.answers] at sent
    rw [begins.begins]
    exact Nat.lt_succ_of_lt (waiting.bounded answer sent)
  · intro other sender listed answer sent
    rw [begins.answers] at sent
    rcases mem_waiters other sender listed with old | rfl
    · exact waiting.unanswered other sender old answer sent
    · exact Nat.ne_of_lt (waiting.bounded answer sent)
  · intro entry listed
    rw [begins.decided] at listed
    obtain ⟨early, settled⟩ := waiting.issued entry listed
    rw [begins.begins]
    refine ⟨Nat.lt_succ_of_lt early, fun undecided => ?_⟩
    rcases begins.undecided entry.1 undecided with old | fresh
    · exact settled old
    · exact Nat.ne_of_lt early fresh
  · intro entry listed
    rw [begins.joined] at listed
    rw [begins.waiters, Answered, begins.decided, begins.answers]
    rcases mem_append.mp listed with old | fresh
    · apply (waiting.joined entry old).imp_left
      rintro ⟨current, waits⟩
      exact ⟨begins.current entry.1 current, mem_append_left _ waits⟩
    · obtain ⟨channel, same, current, registered⟩ := mem_joins_begin fresh
      have placed : entry.1.peerMsgId = peerMsgId ∧
          (account.dedupe.dedupeBegin peerMsgId account.ledger.begins).1 =
            .pendingDuplicate account.ledger.begins := ⟨same, registered⟩
      refine .inl ⟨begins.current entry.1 (same.symm ▸ current), ?_⟩
      rw [if_pos placed, channel]
      exact mem_append_right _ (mem_singleton_self _)

theorem filter_answers (distinct : waiters.Nodup) (listed : sender ∈ waiters)
    (decision : DedupeDecision) :
    ((waiters.map fun waiter => (waiter, decision)).filter fun answer => answer.1 = sender) =
      [(sender, decision)] := by
  rw [List.filter_map]
  have chosen : (waiters.filter fun waiter => waiter = sender) = [sender] := by
    rw [List.filter_eq, List.count_eq_one_of_mem distinct listed]
    rfl
  simpa [Function.comp_def] using congrArg (map fun waiter => (waiter, decision)) chosen

theorem filter_answers_of_not_mem (absent : sender ∉ waiters) (decision : DedupeDecision) :
    ((waiters.map fun waiter => (waiter, decision)).filter fun answer => answer.1 = sender) =
      [] := by
  rw [filter_eq_nil_iff]
  intro answer sent equal
  obtain ⟨waiter, listed, rfl⟩ := mem_map.mp sent
  exact absent (of_decide_eq_true equal ▸ listed)

theorem decide_waiting (founded : account.Founded) (waiting : account.Waiting)
    (decides : account.Decides next owner decision) : next.Waiting := by
  have separate := founded.separate
  have erased : ∀ other, other ∈ next.ledger.undecided ↔
      other ≠ owner ∧ other ∈ account.ledger.undecided := by
    rw [decides.undecided]
    exact fun other => (Ledger.reachable_invariant founded.reached).distinct.mem_erase_iff
  have sub : ∀ other, ∀ sender ∈ next.dedupe.waiters other,
      other ≠ owner.peerMsgId ∧ sender ∈ account.dedupe.waiters other := by
    intro other sender listed
    rw [decides.waiters] at listed
    split at listed
    · cases listed
    · exact ⟨‹_›, listed⟩
  constructor
  · intro other
    rw [decides.waiters]
    split
    · exact nodup_nil
    · exact waiting.distinct other
  · intro answer sent
    rw [decides.begins]
    rw [decides.answers] at sent
    rcases mem_append.mp sent with old | fresh
    · exact waiting.bounded answer old
    · obtain ⟨sender, listed, rfl⟩ := mem_map.mp fresh
      exact separate.bounded owner.peerMsgId sender listed
  · intro other sender listed answer sent
    obtain ⟨different, listed⟩ := sub other sender listed
    rw [decides.answers] at sent
    rcases mem_append.mp sent with old | fresh
    · exact waiting.unanswered other sender listed answer old
    · obtain ⟨waiter, at_owner, rfl⟩ := mem_map.mp fresh
      rintro rfl
      exact different (separate.single other owner.peerMsgId waiter listed at_owner)
  · intro entry listed
    rw [decides.begins, erased]
    rw [decides.decided] at listed
    rcases mem_append.mp listed with old | fresh
    · obtain ⟨early, settled⟩ := waiting.issued entry old
      exact ⟨early, fun still => settled still.2⟩
    · rw [mem_singleton.mp fresh]
      exact ⟨((Ledger.reachable_invariant founded.reached).issued owner decides.current.1).1,
        fun still => still.1 rfl⟩
  · intro entry listed
    rw [decides.joined] at listed
    rw [decides.waiters, Answered, decides.decided, decides.answers]
    simp only [filter_append, mem_append, mem_singleton, Prod.mk.injEq]
    rcases waiting.joined entry listed with ⟨current, waits⟩ | ⟨settled, once, only⟩
    · by_cases same : entry.1 = owner
      · -- The owner is decided now, so its duplicates are answered.
        subst same
        have unsent : (account.answers.filter fun answer => answer.1 = entry.2) = [] := by
          rw [filter_eq_nil_iff]
          intro answer sent equal
          exact waiting.unanswered _ _ waits answer sent (of_decide_eq_true equal)
        refine .inr ⟨decision, fun other => ?_, ?_⟩
        · constructor
          · rintro (old | ⟨_, rfl⟩)
            · exact absurd decides.current.1 (waiting.issued _ old).2
            · rfl
          · rintro rfl
            exact .inr ⟨rfl, rfl⟩
        · rw [unsent, filter_answers (waiting.distinct _) waits, nil_append]
      · have different : entry.1.peerMsgId ≠ owner.peerMsgId := by
          intro equal
          exact same (founded.single current (equal ▸ decides.current))
        refine .inl ⟨⟨(erased _).mpr ⟨same, current.1⟩, ?_, rfl⟩, ?_⟩
        · rw [decides.clears]
          exact current.2.1
        · rw [if_neg different]
          exact waits
    · -- An answered duplicate waits nowhere, so the decision sends nothing to it.
      have sent : (entry.2, settled) ∈ account.answers := by
        apply mem_of_mem_filter
        rw [only]
        exact mem_singleton_self _
      have absent : entry.2 ∉ account.dedupe.waiters owner.peerMsgId := by
        intro waits
        exact waiting.unanswered _ _ waits _ sent rfl
      have different : entry.1 ≠ owner := by
        rintro rfl
        exact (waiting.issued _ ((once settled).mpr rfl)).2 decides.current.1
      refine .inr ⟨settled, fun other => ?_, ?_⟩
      · rw [← once other]
        simp [different]
      · rw [only, filter_answers_of_not_mem absent, append_nil]

theorem pass_waiting (waiting : account.Waiting) (passes : account.Passes next) :
    next.Waiting := by
  obtain ⟨session, rfl, same⟩ := passes
  obtain ⟨distinct, bounded, unanswered, issued, joined⟩ := waiting
  simp only [← same] at distinct unanswered joined
  exact ⟨distinct, bounded, unanswered, issued, joined⟩

theorem step_waiting {call : Call} (founded : account.Founded) (waiting : account.Waiting)
    (taken : account.step call = some next) : next.Waiting := by
  rcases step_cases taken with ⟨_, _, begins⟩ | ⟨_, _, _, decides⟩ | ⟨_, passes⟩
  · exact begin_waiting founded waiting begins
  · exact decide_waiting founded waiting decides
  · exact pass_waiting waiting passes

end Waiting

/-- A recorded id is in the history as long as fewer distinct ids were recorded after it than any
limit read since: what is younger than it in the order was recorded after it. -/
def Remembers (account : Account) : Prop :=
  ∀ before peerMsgId limit later least,
    account.recorded = before ++ (peerMsgId, limit) :: later →
    (∀ entry ∈ later, least ≤ entry.2) → (later.map Prod.fst).toFinset.card < least →
    ∃ older younger, account.dedupe.order = older ++ peerMsgId :: younger ∧
      ∀ other ∈ younger, other ∈ later.map Prod.fst

structure Historic (account : Account) : Prop where
  history : account.dedupe.Invariant
  disjoint : ∀ peerMsgId ∈ account.dedupe.set, account.dedupe.pending.lookup peerMsgId = none
  remembers : account.Remembers

section History

variable {account next : Account} {call : Call}

variable {peerMsgId : PeerMessageId}

/-- Everything a step can do to the history. -/
theorem step_history (taken : account.step call = some next) :
    (next.dedupe.set = account.dedupe.set ∧ next.dedupe.order = account.dedupe.order ∧
      next.recorded = account.recorded) ∨
    ∃ owner sendQueueSize, call = .complete owner (.ok ()) sendQueueSize ∧
      account.ledger.Current owner.peerMsgId owner ∧
      next.dedupe = (account.dedupe.removePending owner.peerMsgId).record
        (dedupeLimit sendQueueSize) owner.peerMsgId ∧
      next.recorded =
        account.recorded ++ [(owner.peerMsgId, dedupeLimit sendQueueSize)] := by
  obtain ⟨allowed, stepped⟩ := ite_none_right_eq_some.mp taken
  obtain ⟨_, performed, rfl⟩ := map_eq_some_iff.mp stepped
  cases call with
  | begin peerMsgId =>
    cases performed
    obtain ⟨set_eq, order_eq⟩ :=
      account.dedupe.dedupeBegin_history peerMsgId account.ledger.begins
    exact .inl ⟨set_eq, order_eq, append_nil _⟩
  | complete owner result sendQueueSize =>
    simp only [Ledger.step, ite_none_right_eq_some, some.injEq] at performed
    obtain ⟨listed, rfl⟩ := performed
    cases result with
    | ok => exact .inr ⟨owner, sendQueueSize, rfl, ⟨listed, allowed, rfl⟩, rfl, rfl⟩
    | error => exact .inl ⟨rfl, rfl, append_nil _⟩
  | abandon owner =>
    simp only [Ledger.step, ite_none_right_eq_some, some.injEq] at performed
    obtain ⟨_, rfl⟩ := performed
    exact .inl ⟨rfl, rfl, append_nil _⟩
  | hello hello =>
    rcases step_cases taken with ⟨_, impossible, _⟩ | ⟨_, _, impossible, _⟩ | ⟨_, _, same, kept⟩
    · cases impossible
    · cases impossible
    · rw [same]
      exact .inl ⟨congrArg (·.set) kept, congrArg (·.order) kept, rfl⟩

theorem Historic.unrecorded (founded : account.Founded) (historic : account.Historic)
    (current : account.ledger.Current peerMsgId owner) : peerMsgId ∉ account.dedupe.set := by
  intro recorded
  have present := (founded.pending peerMsgId).mpr ⟨owner, current⟩
  rw [historic.disjoint peerMsgId recorded] at present
  cases present

theorem step_disjoint (historic : account.Historic) (taken : account.step call = some next) :
    ∀ peerMsgId ∈ next.dedupe.set, next.dedupe.pending.lookup peerMsgId = none := by
  intro peerMsgId recorded
  rcases step_history taken with ⟨set_eq, _⟩ | ⟨_, _, _, _, dedupe_eq, _⟩
  · rw [set_eq] at recorded
    have vacant := historic.disjoint peerMsgId recorded
    rcases step_cases taken with ⟨_, _, begins⟩ | ⟨_, _, _, decides⟩ | ⟨_, _, rfl, same⟩
    · exact (begins.lookup peerMsgId recorded).trans vacant
    · rw [decides.lookup, vacant, ite_self]
    · exact (congrArg (·.pending.lookup peerMsgId) same).trans vacant
  · rw [dedupe_eq] at recorded ⊢
    rw [DedupeState.record_pending, DedupeState.removePending_lookup]
    split
    · rfl
    · rename_i different
      have origin := DedupeState.record_set_subset _ _ _ recorded
      exact historic.disjoint peerMsgId ((Finset.mem_insert.mp origin).resolve_left different)

theorem drop_excess {older kept : List PeerMessageId} {limit : Nat} (short : kept.length ≤ limit) :
    ∃ rest, (older ++ kept).drop ((older ++ kept).length - limit) = rest ++ kept := by
  refine ⟨older.drop ((older ++ kept).length - limit), ?_⟩
  rw [drop_append_of_le_length]
  rw [length_append]
  omega

theorem younger_length {younger recorded : List PeerMessageId}
    {least : Nat} (distinct : (younger ++ [peerMsgId]).Nodup)
    (known : ∀ other ∈ younger, other ∈ recorded)
    (few : (recorded ++ [peerMsgId]).toFinset.card < least) :
    (younger ++ [peerMsgId]).length < least := by
  rw [← toFinset_card_of_nodup distinct]
  refine lt_of_le_of_lt (Finset.card_le_card ?_) few
  intro other listed
  simp only [toFinset_append, List.mem_toFinset, Finset.mem_union] at listed ⊢
  exact listed.imp_left (known other)

theorem step_remembers (founded : account.Founded) (historic : account.Historic)
    (taken : account.step call = some next) : next.Remembers := by
  intro before peerMsgId limit later least listed floor few
  rcases step_history taken with ⟨_, order_eq, recorded_eq⟩ |
    ⟨owner, sendQueueSize, _, current, dedupe_eq, recorded_eq⟩
  · rw [order_eq]
    rw [recorded_eq] at listed
    exact historic.remembers before peerMsgId limit later least listed floor few
  have absent : owner.peerMsgId ∉ (account.dedupe.removePending owner.peerMsgId).set :=
    historic.unrecorded founded current
  have order_eq := congrArg DedupeState.order dedupe_eq
  rw [DedupeState.record, if_neg absent] at order_eq
  replace order_eq := order_eq.trans evict_order_eq_drop
  rw [recorded_eq] at listed
  -- The id in question was recorded by this step, or this step adds one younger id.
  rcases eq_nil_or_concat later with rfl | ⟨earlier, _, rfl⟩
  · obtain ⟨_, same⟩ := append_inj' listed rfl
    cases singleton_inj.mp same
    have room : [owner.peerMsgId].length ≤ dedupeLimit sendQueueSize :=
      dedupeLimit_pos sendQueueSize
    obtain ⟨rest, kept⟩ := drop_excess room
    exact ⟨rest, [], order_eq.trans kept, by simp⟩
  · rw [concat_eq_append] at listed floor few ⊢
    rw [← cons_append, ← append_assoc] at listed
    obtain ⟨recorded_before, same⟩ := append_inj' listed rfl
    obtain rfl := singleton_inj.mp same
    rw [map_append, map_singleton] at few ⊢
    have fewer : (earlier.map Prod.fst).toFinset.card < least := by
      refine lt_of_le_of_lt (Finset.card_le_card ?_) few
      rw [toFinset_append]
      exact Finset.subset_union_left
    obtain ⟨older, younger, order_before, known⟩ := historic.remembers before peerMsgId limit
      earlier least recorded_before (fun entry earlier => floor entry (by simp [earlier])) fewer
    have distinct : (account.dedupe.order ++ [owner.peerMsgId]).Nodup := by
      rw [nodup_append]
      refine ⟨historic.history.distinct, nodup_singleton _, ?_⟩
      rintro other membership _ here rfl
      apply absent
      rw [DedupeState.removePending_set, ← historic.history.agree, List.mem_toFinset]
      exact mem_singleton.mp here ▸ membership
    have split_order : account.dedupe.order ++ [owner.peerMsgId] =
        older ++ (peerMsgId :: (younger ++ [owner.peerMsgId])) := by
      rw [order_before, append_assoc, cons_append]
    have short : (younger ++ [owner.peerMsgId]).length < least := by
      apply younger_length _ known few
      rw [split_order] at distinct
      exact (nodup_cons.mp (nodup_append.mp distinct).2.1).2
    have room : (peerMsgId :: (younger ++ [owner.peerMsgId])).length ≤
        dedupeLimit sendQueueSize := by
      have read : least ≤ dedupeLimit sendQueueSize :=
        floor (owner.peerMsgId, dedupeLimit sendQueueSize) (by simp)
      rw [length_cons]
      exact Nat.le_trans short read
    obtain ⟨rest, kept⟩ := drop_excess room
    refine ⟨rest, younger ++ [owner.peerMsgId], ?_, ?_⟩
    · rw [order_eq, DedupeState.removePending, split_order, kept]
    · intro other membership
      rcases mem_append.mp membership with old | here
      · exact mem_append_left _ (known other old)
      · exact mem_append_right _ here

theorem step_historic (founded : account.Founded) (historic : account.Historic)
    (taken : account.step call = some next) : next.Historic := by
  refine ⟨?_, step_disjoint historic taken, step_remembers founded historic taken⟩
  rcases step_history taken with ⟨set_eq, order_eq, _⟩ | ⟨_, _, _, _, dedupe_eq, _⟩
  · constructor
    · rw [order_eq]
      exact historic.history.distinct
    · rw [order_eq, set_eq]
      exact historic.history.agree
  · rw [dedupe_eq]
    apply DedupeState.record_invariant
    exact ⟨historic.history.distinct, historic.history.agree⟩

/-- A recorded completion leaves no more ids than the limit it read. -/
theorem step_bounded (founded : account.Founded) (historic : account.Historic)
    {sendQueueSize : Nat}
    (taken : account.step (.complete owner (.ok ()) sendQueueSize) = some next) :
    next.dedupe.order.length ≤ dedupeLimit sendQueueSize := by
  rcases step_history taken with ⟨_, _, recorded_eq⟩ | ⟨_, _, same, current, dedupe_eq, _⟩
  · obtain ⟨_, stepped⟩ := ite_none_right_eq_some.mp taken
    obtain ⟨_, _, rfl⟩ := map_eq_some_iff.mp stepped
    simp [after, Call.records] at recorded_eq
  · cases same
    have absent : owner.peerMsgId ∉ (account.dedupe.removePending owner.peerMsgId).set :=
      historic.unrecorded founded current
    rw [dedupe_eq, DedupeState.record, if_neg absent]
    exact evict_order_length

end History

structure Invariant (account : Account) : Prop where
  founded : account.Founded
  waiting : account.Waiting
  historic : account.Historic

theorem start_invariant (reached : Ledger.system.Reachable ledger)
    (empty : ledger.session.dedupe = .new) (uncrossed : ledger.crossed = []) :
    (start ledger).Invariant := by
  have dedupe_eq : (start ledger).dedupe = .new := empty
  refine ⟨⟨reached, uncrossed⟩, ?_, ?_⟩
  · constructor <;> simp [dedupe_eq, DedupeState.waiters] <;> simp [start]
  · refine ⟨?_, ?_, ?_⟩
    · rw [dedupe_eq]
      exact DedupeState.new_invariant
    · simp [dedupe_eq]
    · intro before peerMsgId limit later least listed
      simp [start] at listed

theorem reachable_epoch {account : Account} (reached : system.Reachable account) :
    account.Invariant := by
  refine reached.invariant ?_ ?_
  · rintro _ ⟨_, rfl, reached, empty, uncrossed⟩
    exact start_invariant reached empty uncrossed
  · intro account call next inv taken
    exact ⟨step_founded inv.founded taken, step_waiting inv.founded inv.waiting taken,
      step_historic inv.founded inv.historic taken⟩

/-- Within one epoch, whatever calls interleave: while a begin of an id is undecided every other
begin of it joins, and each one that joined gets the decision of that begin and nothing else; a
successfully completed id is answered from the history as long as fewer distinct ids were completed
after it than any limit read since; the history lists its set, shares no id with the pending
entries, and is within the limit of the completion that recorded last. -/
theorem epoch_answers {account : Account} (reached : system.Reachable account) :
    (∀ owner peerMsgId sender, account.ledger.Current peerMsgId owner →
      (account.dedupe.dedupeBegin peerMsgId sender).1 = .pendingDuplicate sender) ∧
    (∀ owner sender, (owner, sender) ∈ account.joined →
      account.Unanswered owner sender ∨ account.Answered owner sender) ∧
    (∀ before peerMsgId limit later least sender,
      account.recorded = before ++ (peerMsgId, limit) :: later →
      (∀ entry ∈ later, least ≤ entry.2) → (later.map Prod.fst).toFinset.card < least →
      (account.dedupe.dedupeBegin peerMsgId sender).1 = .duplicate .ack) ∧
    (account.dedupe.order.Nodup ∧ account.dedupe.order.toFinset = account.dedupe.set ∧
      ∀ peerMsgId ∈ account.dedupe.set, account.dedupe.pending.lookup peerMsgId = none) ∧
    (∀ owner sendQueueSize next,
      account.step (.complete owner (.ok ()) sendQueueSize) = some next →
      next.dedupe.set.card ≤ dedupeLimit sendQueueSize) := by
  obtain ⟨founded, waiting, historic⟩ := reachable_epoch reached
  refine ⟨?_, ?_, ?_, ⟨historic.history.distinct, historic.history.agree, historic.disjoint⟩, ?_⟩
  · intro owner peerMsgId sender current
    have absent := historic.unrecorded founded current
    have present := (founded.pending peerMsgId).mpr ⟨owner, current⟩
    rcases account.dedupe.dedupeBegin_cases peerMsgId sender with
      ⟨recorded, _⟩ | ⟨_, _, _, taken⟩ | ⟨_, vacant, _⟩
    · exact absurd recorded absent
    · rw [taken]
    · rw [vacant] at present
      cases present
  · intro owner sender joined
    apply (waiting.joined (owner, sender) joined).imp_left
    rintro ⟨current, waits⟩
    exact ⟨current, waiting.unanswered owner.peerMsgId sender waits⟩
  · intro before peerMsgId limit later least sender listed floor few
    rw [DedupeState.dedupeBegin_eq_ack_iff, ← historic.history.agree, List.mem_toFinset]
    obtain ⟨_, _, order_eq, _⟩ :=
      historic.remembers before peerMsgId limit later least listed floor few
    rw [order_eq]
    exact mem_append_right _ mem_cons_self
  · intro owner sendQueueSize next taken
    have after := step_historic founded historic taken
    rw [← after.history.agree, toFinset_card_of_nodup after.history.distinct]
    exact step_bounded founded historic taken

/-- Id 5 begins, arrives again, and is completed by its first begin. -/
def joinedDuplicate : List Call :=
  [.begin 5, .begin 5, .complete ⟨0, 5, 0⟩ (.ok ()) 16]

/-- The duplicate gets the one decision, and a third arrival is answered from the history. -/
theorem epoch_answers_joinedDuplicate :
    ∃ account,
      Machine.exec step (start (Ledger.start Ledger.freshSession)) joinedDuplicate = some account ∧
      (account.Unanswered ⟨0, 5, 0⟩ 1 ∨ account.Answered ⟨0, 5, 0⟩ 1) ∧
      (account.dedupe.dedupeBegin 5 2).1 = .duplicate .ack := by
  obtain ⟨account, ran, joined, recorded⟩ : ∃ account,
      Machine.exec step (start (Ledger.start Ledger.freshSession)) joinedDuplicate =
        some account ∧
      account.joined = [(⟨0, 5, 0⟩, 1)] ∧ account.recorded = [(5, dedupeLimit 16)] :=
    ⟨_, rfl, rfl, rfl⟩
  have opened : system.Reachable (start (Ledger.start Ledger.freshSession)) :=
    .start ⟨_, rfl, Ledger.reachable_freshSession, rfl, rfl⟩
  obtain ⟨_, served, retained, _⟩ :=
    epoch_answers (opened.exec (fun _ _ _ taken => taken) joinedDuplicate ran)
  refine ⟨account, ran, served _ _ (by rw [joined]; exact mem_singleton_self _), ?_⟩
  exact retained [] 5 (dedupeLimit 16) [] 1 2 recorded (by simp) (by decide)

end Account

end AureliaPeering.Session
