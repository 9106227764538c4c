import AureliaPeering.Store.Safety

/-!
Every accepted message is completed exactly once.

The account of a run lists the accepted messages and the completion effects with the operations
they came from.  A oneshot sender is moved into the store with its message, so in a run of the
source no sender is accepted twice.
-/

namespace AureliaPeering.Store

open RetainedStore List

/-- The message an operation accepted, if it accepted one. -/
def acceptedBy : Op × Output → List TrackedOutbound
  | (.insertTracked tracked _ _, .tracked (.ok _)) => [tracked]
  | _ => []

def acceptedIn (labels : List (Op × Output)) : List TrackedOutbound := labels.flatMap acceptedBy

/-- The completion effects of an operation, each with the operation. -/
def completedBy (label : Op × Output) : List (Op × CompletionEffect) :=
  label.2.completions.map fun effect => (label.1, effect)

def completedIn (labels : List (Op × Output)) : List (Op × CompletionEffect) :=
  labels.flatMap completedBy

def carrying (sender : AckSender) (log : List (Op × CompletionEffect)) :
    List (Op × CompletionEffect) :=
  log.filter fun entry => entry.2.ackTx = sender

def Holds (contents : Contents) (id : SlotId) (tracked : TrackedOutbound) : Prop :=
  ∃ stored, contents id = some stored ∧ stored.item = .tracked tracked

/-- A message is stored in exactly one slot and its sender was never used, or it is stored
nowhere and its sender was used once, successfully only by an acknowledgement. -/
def Settled (contents : Contents) (log : List (Op × CompletionEffect)) (tracked : TrackedOutbound) :
    Prop :=
  ((∃! id, Holds contents id tracked) ∧ carrying tracked.ackTx log = []) ∨
    ((∀ id, ¬ Holds contents id tracked) ∧ ∃ op effect,
      carrying tracked.ackTx log = [(op, effect)] ∧ op.completes = true ∧
      effect.peerMsgId = tracked.peerMsgId ∧
      (effect.result = .ok () → ∃ peerMsgId, op = .ack peerMsgId))

/-- The account of a run against the contents it leads to. -/
structure Accounted (contents : Contents) (accepted : List TrackedOutbound)
    (log : List (Op × CompletionEffect)) : Prop where
  held : ∀ id tracked, Holds contents id tracked → tracked ∈ accepted
  unique : ∀ id other tracked, Holds contents id tracked → Holds contents other tracked → id = other
  known : ∀ entry ∈ log, ∃ tracked ∈ accepted, entry.2.ackTx = tracked.ackTx
  settled : ∀ tracked ∈ accepted, Settled contents log tracked

variable {after before contents next : Contents} {log : List (Op × CompletionEffect)}
  {tracked : TrackedOutbound} {accepted : List TrackedOutbound} {id other : SlotId} {op : Op}
  {result : Except AureliaError Unit} {stored : Entry} {items : List RetainedItem}
  {output : Output}

theorem Settled.congr (same : ∀ id, Holds next id tracked ↔ Holds contents id tracked)
    (settled : Settled contents log tracked) : Settled next log tracked := by
  unfold Settled at settled ⊢
  simpa only [same] using settled

theorem Accounted.congr (same : ∀ id tracked, Holds next id tracked ↔ Holds contents id tracked)
    (accounted : Accounted contents accepted log) : Accounted next accepted log where
  held id tracked holds := accounted.held id tracked ((same id tracked).mp holds)
  unique id other tracked first second :=
    accounted.unique id other tracked ((same id tracked).mp first) ((same other tracked).mp second)
  known := accounted.known
  settled tracked membership :=
    (accounted.settled tracked membership).congr fun id => same id tracked

theorem carrying_append (sender : AckSender) (first second : List (Op × CompletionEffect)) :
    carrying sender (first ++ second) = carrying sender first ++ carrying sender second :=
  filter_append ..

theorem holds_update_none_iff :
    Holds (Function.update contents id none) other tracked ↔
      other ≠ id ∧ Holds contents other tracked := by
  by_cases here : other = id
  · subst here
    simp [Holds]
  · simp [Holds, here]

theorem Accounted.remove (linear : (accepted.map TrackedOutbound.ackTx).Nodup)
    (accounted : Accounted contents accepted log) (completes : op.completes = true)
    (acknowledged : result = .ok () → ∃ peerMsgId, op = .ack peerMsgId)
    (present : contents id = some stored) :
    Accounted (Function.update contents id none) accepted
      (log ++ (itemEffects result stored.item).map fun effect => (op, effect)) := by
  cases item_eq : stored.item with
  | ack peerMsgId | error peerMsgId frame =>
    simp only [itemEffects, map_nil, append_nil]
    refine accounted.congr fun other tracked => ?_
    rw [holds_update_none_iff, and_iff_right_of_imp]
    rintro ⟨held, at_other, message⟩ rfl
    rw [present, Option.some.injEq] at at_other
    simp [← at_other, item_eq] at message
  | tracked outbound =>
    have holds : Holds contents id outbound := ⟨stored, present, item_eq⟩
    have member := accounted.held id outbound holds
    have unused : carrying outbound.ackTx log = [] := by
      rcases accounted.settled outbound member with ⟨_, unused⟩ | ⟨nowhere, _⟩
      · exact unused
      · exact absurd holds (nowhere id)
    simp only [itemEffects, map_cons, map_nil]
    refine ⟨fun other tracked at_other => ?_, fun first second tracked at_first at_second => ?_,
      fun entry listed => ?_, fun tracked membership => ?_⟩
    · exact accounted.held other tracked (holds_update_none_iff.mp at_other).2
    · exact accounted.unique first second tracked (holds_update_none_iff.mp at_first).2
        (holds_update_none_iff.mp at_second).2
    · rcases mem_append.mp listed with old | fresh
      · exact accounted.known entry old
      · rw [mem_singleton.mp fresh]
        exact ⟨outbound, member, rfl⟩
    · by_cases same : tracked = outbound
      · subst same
        refine .inr ⟨fun other at_other => ?_, op, ⟨tracked.peerMsgId, tracked.ackTx, result⟩,
          ?_, completes, rfl, acknowledged⟩
        · obtain ⟨elsewhere, at_old⟩ := holds_update_none_iff.mp at_other
          exact elsewhere (accounted.unique other id tracked at_old holds)
        · rw [carrying_append, unused]
          simp [carrying]
      · have other_sender : outbound.ackTx ≠ tracked.ackTx := fun equal =>
          same (inj_on_of_nodup_map linear membership member equal.symm)
        have same_holds : ∀ other, Holds (Function.update contents id none) other tracked ↔
            Holds contents other tracked := by
          intro other
          rw [holds_update_none_iff, and_iff_right_of_imp]
          rintro ⟨held, at_other, message⟩ rfl
          rw [present, Option.some.injEq] at at_other
          rw [← at_other, item_eq, RetainedItem.tracked.injEq] at message
          exact same message.symm
        have kept := (accounted.settled tracked membership).congr same_holds
        unfold Settled at kept ⊢
        simpa [carrying_append, carrying, other_sender] using kept

theorem Accounted.removals
    (removals : Removals before items after) (linear : (accepted.map TrackedOutbound.ackTx).Nodup)
    (accounted : Accounted before accepted log) (completes : op.completes = true)
    (acknowledged : result = .ok () → ∃ peerMsgId, op = .ack peerMsgId) :
    Accounted after accepted
      (log ++ (items.flatMap (itemEffects result)).map fun effect => (op, effect)) := by
  induction removals generalizing log with
  | nil => simpa using accounted
  | cons present _ ih =>
    have removed := accounted.remove linear completes acknowledged present
    simpa using ih removed

theorem holds_iff_of_cleared
    (removals : Removals before items after) (responses : ∀ item ∈ items, item.isTracked = false)
    (id : SlotId) (tracked : TrackedOutbound) :
    Holds after id tracked ↔ Holds before id tracked := by
  induction removals with
  | nil => rfl
  | @cons contents final slot stored items present rest ih =>
    rw [ih fun item listed => responses item (mem_cons_of_mem _ listed),
      holds_update_none_iff, and_iff_right_of_imp]
    rintro ⟨_, at_id, message⟩ rfl
    rw [present, Option.some.injEq] at at_id
    have response := responses stored.item mem_cons_self
    simp [at_id, message] at response

theorem holds_update_some_iff (vacant : contents id = none) :
    Holds (Function.update contents id (some stored)) other tracked ↔
      (other = id ∧ stored.item = .tracked tracked) ∨ Holds contents other tracked := by
  by_cases here : other = id
  · subst here
    simp [Holds, vacant]
  · simp [Holds, here]

theorem Accounted.accept (accounted : Accounted contents accepted log)
    (fresh : tracked.ackTx ∉ accepted.map TrackedOutbound.ackTx) (vacant : contents id = none)
    (deadline : Instant) (seq : Nat) :
    Accounted (Function.update contents id (some ⟨.tracked tracked, deadline, seq⟩))
      (accepted ++ [tracked]) log := by
  have unheld : ∀ other, ¬ Holds contents other tracked := fun other holds =>
    fresh (mem_map_of_mem (accounted.held other tracked holds))
  have unused : carrying tracked.ackTx log = [] := by
    refine filter_eq_nil_iff.mpr fun entry listed => ?_
    obtain ⟨other, member, same⟩ := accounted.known entry listed
    simp only [same, decide_eq_true_eq]
    intro equal
    exact fresh (equal ▸ mem_map_of_mem member)
  refine ⟨fun other message holds => ?_, fun first second message at_first at_second => ?_,
    fun entry listed => ?_, fun message membership => ?_⟩
  · rcases (holds_update_some_iff vacant).mp holds with ⟨_, new⟩ | old
    · simp [RetainedItem.tracked.inj new]
    · exact mem_append_left _ (accounted.held other message old)
  · rcases (holds_update_some_iff vacant).mp at_first with ⟨rfl, new⟩ | old <;>
      rcases (holds_update_some_iff vacant).mp at_second with ⟨rfl, also⟩ | older
    · rfl
    · exact absurd (RetainedItem.tracked.inj new ▸ older) (unheld second)
    · exact absurd (RetainedItem.tracked.inj also ▸ old) (unheld first)
    · exact accounted.unique first second message old older
  · obtain ⟨other, member, same⟩ := accounted.known entry listed
    exact ⟨other, mem_append_left _ member, same⟩
  · rcases mem_append.mp membership with old | new
    · refine (accounted.settled message old).congr fun other => ?_
      rw [holds_update_some_iff vacant, or_iff_right]
      rintro ⟨_, same⟩
      exact fresh (RetainedItem.tracked.inj same ▸ mem_map_of_mem old)
    · rw [mem_singleton.mp new]
      refine .inl ⟨⟨id, (holds_update_some_iff vacant).mpr (.inl ⟨rfl, rfl⟩),
        fun other holds => ?_⟩,
        unused⟩
      rcases (holds_update_some_iff vacant).mp holds with ⟨here, _⟩ | older
      · exact here
      · exact absurd older (unheld other)

theorem Accounted.step (change : Change op output before after)
    (linear : ((accepted ++ acceptedBy (op, output)).map TrackedOutbound.ackTx).Nodup)
    (accounted : Accounted before accepted log) :
    Accounted after (accepted ++ acceptedBy (op, output)) (log ++ completedBy (op, output)) := by
  cases change with
  | kept silent refused =>
    have none_accepted : acceptedBy (op, output) = [] := by
      cases op with
      | insertTracked tracked deadline now =>
        obtain ⟨_, rfl, _⟩ := refused tracked deadline now rfl
        rfl
      | _ => rfl
    simpa [none_accepted, completedBy, silent] using accounted
  | accepted inserted returned vacant =>
    subst inserted returned
    simp only [acceptedBy, map_append, map_cons, map_nil] at linear
    have fresh := (nodup_append.mp linear).2.2
    simp only [completedBy, Output.completions, map_nil, append_nil, acceptedBy]
    exact accounted.accept (fun listed => fresh _ listed _ (by simp) rfl) vacant _ _
  | responded other silent response _ vacant =>
    have none_accepted : acceptedBy (op, output) = [] := by
      cases op with
      | insertTracked tracked deadline now => exact absurd rfl (other tracked deadline now)
      | _ => rfl
    simp only [none_accepted, completedBy, silent, map_nil, append_nil]
    refine accounted.congr fun id tracked => ?_
    rw [holds_update_some_iff vacant, or_iff_right]
    rintro ⟨_, message⟩
    simp [message] at response
  | @completed items _ result completes acknowledged removals effects_eq =>
    have none_accepted : acceptedBy (op, output) = [] := by
      cases op with
      | insertTracked tracked deadline now => simp [Op.completes] at completes
      | _ => rfl
    simp only [none_accepted, append_nil] at linear ⊢
    rw [completedBy, effects_eq]
    exact Accounted.removals removals linear accounted completes acknowledged
  | cleared other responses removals silent =>
    have none_accepted : acceptedBy (op, output) = [] := by
      cases op with
      | insertTracked tracked deadline now => exact absurd rfl (other tracked deadline now)
      | _ => rfl
    simp only [none_accepted, completedBy, silent, map_nil, append_nil]
    exact accounted.congr fun id tracked => holds_iff_of_cleared removals responses id tracked

theorem run_accounted {start store : RetainedStore} {labels : List (Op × Output)}
    (initial : system.Initial start) (run : system.Run start labels store)
    (linear : ((acceptedIn labels).map TrackedOutbound.ackTx).Nodup) :
    Accounted store.contents (acceptedIn labels) (completedIn labels) := by
  induction run with
  | nil =>
    obtain ⟨capacities, now, rfl⟩ := initial
    have vacant : ∀ id tracked,
        ¬ Holds (RetainedStore.new capacities now).contents id tracked := by
      rintro ⟨lane, index⟩ tracked ⟨_, present, _⟩
      have empty : (RetainedStore.new capacities now).contents ⟨lane, index⟩ = none := by
        cases lane <;> exact LaneState.new_entry _ _ now index
      simp [empty] at present
    exact ⟨fun id tracked holds => absurd holds (vacant id tracked),
      fun id _ tracked holds => absurd holds (vacant id tracked),
      by simp [completedIn], by simp [acceptedIn]⟩
  | @snoc middle finish labels label earlier taken ih =>
    have start_inv : start.Invariant := by
      obtain ⟨capacities, now, rfl⟩ := initial
      exact new_invariant capacities now
    have change := (step_invariant (run_invariant start_inv earlier) taken).2
    simp only [acceptedIn, completedIn, flatMap_append, flatMap_singleton] at linear ⊢
    have before := ih (by
      rw [map_append] at linear
      exact (nodup_append.mp linear).1)
    exact before.step change linear

def Op.silent (op : Op) : Bool :=
  match op with
  | .insertTracked _ _ _ => false
  | op => !op.completes

theorem Change.holds_iff_of_silent
    (change : Change op output before after) (silent : op.silent = true) :
    output.completions = [] ∧ ∀ id tracked, Holds after id tracked ↔ Holds before id tracked := by
  cases change with
  | kept none_completed _ => exact ⟨none_completed, fun _ _ => Iff.rfl⟩
  | accepted inserted _ _ => simp [inserted, Op.silent] at silent
  | responded _ none_completed response _ vacant =>
    refine ⟨none_completed, fun id tracked => ?_⟩
    rw [holds_update_some_iff vacant, or_iff_right]
    rintro ⟨_, message⟩
    simp [message] at response
  | completed result completes _ _ _ =>
    cases op <;> simp_all [Op.silent, Op.completes]
  | cleared _ responses removals none_completed =>
    exact ⟨none_completed, holds_iff_of_cleared removals responses⟩

/-- Exactly-once completion.  In every run in which no sender is accepted twice, each accepted
message is settled; a refused insertion hands back its item and leaves the store as it was; and
no other operation produces a completion or moves a message. -/
theorem run_completes_exactly_once {start store : RetainedStore} {labels : List (Op × Output)}
    (initial : system.Initial start) (run : system.Run start labels store)
    (linear : ((acceptedIn labels).map TrackedOutbound.ackTx).Nodup) :
    (∀ tracked ∈ acceptedIn labels, Settled store.contents (completedIn labels) tracked) ∧
      (∀ tracked deadline now error next,
        system.Step store (.insertTracked tracked deadline now, .tracked (.error error)) next →
        error.tracked = tracked ∧ next = store) ∧
      (∀ op output next, op.silent = true → system.Step store (op, output) next →
        output.completions = [] ∧
          ∀ id tracked, Holds next.contents id tracked ↔ Holds store.contents id tracked) := by
  have inv : store.Invariant := reachable_invariant ⟨start, labels, initial, run⟩
  refine ⟨(run_accounted initial run linear).settled, ?_, ?_⟩
  · intro tracked deadline now error next taken
    obtain ⟨_, _, inserted, _, refused | ⟨rfl, _⟩⟩ :=
      insertTracked_cases inv tracked deadline now
    · obtain ⟨_, rfl, same, rfl, _⟩ := refused
      have returned := taken.2
      simp only [step, inserted, Except.map, Except.ok.injEq, Prod.mk.injEq, Output.tracked.injEq,
        Except.error.injEq] at returned
      obtain ⟨rfl, rfl⟩ := returned
      exact ⟨same, rfl⟩
    · have returned := taken.2
      simp [step, inserted, Except.map] at returned
  · intro op output next silent taken
    exact (step_invariant inv taken).2.holds_iff_of_silent silent

/-- One message, accepted and acknowledged. -/
theorem run_completes_exactly_once_acked :
    ∃ start store labels, system.Initial start ∧ system.Run start labels store ∧
      acceptedIn labels = [⟨⟨7, 1, 2, a3MessageTypeBase, 0, []⟩, 3⟩] ∧
      Settled store.contents (completedIn labels) ⟨⟨7, 1, 2, a3MessageTypeBase, 0, []⟩, 3⟩ := by
  have initial : system.Initial (RetainedStore.new ⟨1, 1, 1, 1⟩ 0) := ⟨_, _, rfl⟩
  have inserted := @Machine.System.Run.single _ _ system (RetainedStore.new ⟨1, 1, 1, 1⟩ 0) _
    (.insertTracked ⟨⟨7, 1, 2, a3MessageTypeBase, 0, []⟩, 3⟩ 10 0, .tracked (.ok ()))
    ⟨trivial, rfl⟩
  have run := @Machine.System.Run.snoc _ _ system _ _ _ _
    (.ack 7, .effects [⟨7, 3, .ok ()⟩]) inserted ⟨trivial, rfl⟩
  exact ⟨_, _, _, initial, run, rfl,
    (run_completes_exactly_once initial run (by decide)).1 _ (by decide)⟩

end AureliaPeering.Store
