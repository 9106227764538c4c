import AureliaPeering.Peer.PeerSystem

/-!
The limit on parallel callis.

A handshake or a dial that has passed the limit does not count until its callis is spawned, so that
several of them can pass together.  The limit holds in the runs that pass them one by one.
-/

namespace AureliaPeering.Peer.PeerSystem

open Collections Store List Option

def establishing (system : PeerSystem) : Nat :=
  system.dials.countP (·.callis.isNone) + system.accepts.countP (·.callis.isNone)

/-- The limit stays, and where capacity is checked with success there is also room for the callis
that are being established. -/
def Reserved (system : PeerSystem) : SystemLabel → Prop
  | .hello _ | .process _ _ =>
    system.hasCallisCapacity = true →
      system.running.length + system.establishing < system.maxParallel
  | .configure _ => False
  | _ => True

instance (system : PeerSystem) (label : SystemLabel) : Decidable (system.Reserved label) := by
  unfold Reserved
  split <;> infer_instance

def WithinLimit (system : PeerSystem) : Prop :=
  system.running.length + system.establishing ≤ system.maxParallel

theorem countP_spawned {attempts : List Attempt} {kind : CallisKind} {id : CallisId}
    (listed : ⟨kind, none⟩ ∈ attempts) :
    (⟨kind, some id⟩ :: attempts.erase ⟨kind, none⟩ : List Attempt).countP (·.callis.isNone) + 1 =
      attempts.countP (·.callis.isNone) := by
  rw [(perm_cons_erase listed).countP_eq]
  simp

theorem countP_erase_le (attempts : List Attempt) (attempt : Attempt) :
    (attempts.erase attempt).countP (·.callis.isNone) ≤ attempts.countP (·.callis.isNone) :=
  erase_sublist.countP_le

theorem WithinLimit.of_le {system next : PeerSystem} (within : system.WithinLimit)
    (same : next.maxParallelCallisPerPeer = system.maxParallelCallisPerPeer)
    (running : next.running.length ≤ system.running.length)
    (dials : next.dials.countP (·.callis.isNone) ≤ system.dials.countP (·.callis.isNone))
    (accepts : next.accepts.countP (·.callis.isNone) ≤ system.accepts.countP (·.callis.isNone)) :
    next.WithinLimit := by
  unfold WithinLimit establishing maxParallel at *
  rw [same]
  omega

theorem withinLimit_enqueue {system next : PeerSystem} {update : PeerStateUpdate}
    (within : system.WithinLimit) (queued : system.enqueue update = some next) :
    next.WithinLimit := by
  obtain ⟨_, ⟨⟩⟩ := ite_none_right_eq_some.mp queued
  exact within

theorem withinLimit_signal {system : PeerSystem} {update : PeerStateUpdate}
    (within : system.WithinLimit) : (system.trySignalPeerStateEnsure update).WithinLimit := by
  unfold trySignalPeerStateEnsure
  split <;> exact within

theorem withinLimit_execute {system : PeerSystem} {update : PeerStateUpdate} {otherWork : Bool}
    {now : Instant} (within : system.WithinLimit)
    (reserved : system.hasCallisCapacity = true →
      system.running.length + system.establishing < system.maxParallel) :
    (system.execute update otherWork now).WithinLimit := by
  unfold WithinLimit establishing at *
  simp only [execute]
  change _ ≤ system.maxParallel
  cases launched : PeerContext.launch (system.ctx.effects update (system.inputs otherWork) [])
      (system.inputs otherWork) system.addressKnown with
  | none => simpa using within
  | some kind =>
    have capacity : system.hasCallisCapacity = true := by
      unfold PeerContext.launch at launched
      simp only [inputs] at launched
      by_contra exhausted
      simp [exhausted] at launched
    have room := reserved capacity
    simp only [toList_some, map_cons, map_nil, countP_append,
      countP_singleton, isNone_none, if_true]
    omega

theorem withinLimit_step {system next : PeerSystem} {label : SystemLabel}
    (within : system.WithinLimit) (stepped : system.step label = some next)
    (reserved : system.Reserved label) : next.WithinLimit := by
  cases label with
  | send =>
    cases stepped
    exact withinLimit_signal within
  | acceptRequest =>
    simp only [step] at stepped
    split at stepped
    · cases stepped
      exact within
    · cases stepped
      exact withinLimit_signal within
  | settle | registerStream | endStream | beginClose | updateDialAddr =>
    cases stepped
    exact within
  | hello kind =>
    simp only [step] at stepped
    split at stepped
    · rename_i passed
      cases stepped
      have room := reserved passed.1
      unfold WithinLimit
      unfold establishing at room ⊢
      simp only [countP_cons, isNone_none, if_true]
      change _ ≤ system.maxParallel
      omega
    · cases stepped
      exact within
  | acceptFails kind =>
    obtain ⟨_, ⟨⟩⟩ := ite_none_right_eq_some.mp stepped
    exact within.of_le rfl le_rfl le_rfl (countP_erase_le _ _)
  | acceptSpawns kind | dialSpawns kind =>
    obtain ⟨listed, ⟨⟩⟩ := ite_none_right_eq_some.mp stepped
    have spawned := @countP_spawned _ _ system.nextCallisId listed
    unfold WithinLimit establishing maxParallel at *
    simp only [length_cons]
    omega
  | acceptReports kind id settings =>
    obtain ⟨_, queued⟩ := ite_none_right_eq_some.mp stepped
    refine withinLimit_enqueue ?_ queued
    exact within.of_le rfl le_rfl le_rfl (countP_erase_le _ _)
  | dialReports kind id freshSession settings | dialFails kind =>
    obtain ⟨_, queued⟩ := ite_none_right_eq_some.mp stepped
    refine withinLimit_enqueue ?_ queued
    exact within.of_le rfl le_rfl (countP_erase_le _ _) le_rfl
  | callisEnds kind id =>
    obtain ⟨_, ⟨⟩⟩ := ite_none_right_eq_some.mp stepped
    exact within.of_le rfl erase_sublist.length_le le_rfl le_rfl
  | callisReports kind id =>
    obtain ⟨_, queued⟩ := ite_none_right_eq_some.mp stepped
    refine withinLimit_enqueue ?_ queued
    exact within.of_le rfl le_rfl le_rfl le_rfl
  | disconnect kind id | gracefulClose => exact withinLimit_enqueue within stepped
  | process otherWork now =>
    simp only [step] at stepped
    split at stepped
    · cases stepped
    · cases stepped
      exact withinLimit_execute within reserved
  | expire now =>
    obtain ⟨_, ⟨⟩⟩ := ite_none_right_eq_some.mp stepped
    exact within
  | configure limit => exact absurd reserved id

/-- In every run that admits a handshake or a dial only with room for those under way, the running
callis stay within the limit. -/
theorem running_within_limit {run : PeerSystem}
    (reached : (system.restrict Reserved).Reachable run) :
    run.running.length ≤ run.maxParallel := by
  have within : run.WithinLimit := by
    refine reached.invariant ?_ ?_
    · rintro _ ⟨limit, _, rfl⟩
      exact Nat.zero_le _
    · rintro _ _ after holds ⟨stepped, reserved⟩
      exact withinLimit_step holds stepped reserved
  exact (Nat.le_add_right _ _).trans within

/-- With a limit of two, a dial and a handshake pass one after the other. -/
theorem running_within_limit_two :
    ∃ run, (system.restrict Reserved).Reachable run ∧ run.maxParallel = 2 ∧
      run.running = [(.primary, 1), (.primary, 0)] ∧ run.running.length ≤ run.maxParallel := by
  obtain ⟨run, reached, limit, running⟩ :
      ∃ run, (system.restrict Reserved).Reachable run ∧ run.maxParallel = 2 ∧
        run.running = [(.primary, 1), (.primary, 0)] :=
    Machine.System.exists_guarded [.send, .process false 0, .hello .primary, .dialSpawns .primary,
      .acceptSpawns .primary] ⟨2, true, rfl⟩ (by decide)
  exact ⟨run, reached, limit, running, running_within_limit reached⟩

/-- With a limit of one, a handshake passes while a dial is under way, and both spawn. -/
theorem concurrent_handshake_exceeds_limit :
    ∃ run, system.Reachable run ∧ run.maxParallel = 1 ∧
      run.running = [(.primary, 1), (.primary, 0)] :=
  Machine.System.exists_reachable [.send, .process false 0, .hello .primary, .dialSpawns .primary,
    .acceptSpawns .primary] ⟨1, true, rfl⟩ (by decide)

end AureliaPeering.Peer.PeerSystem
