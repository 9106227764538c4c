import AureliaPeering.Blob.BufferTracker
import AureliaPeering.Lib.Slots

/-!
The counters of the buffer tracker are exact under every interleaving.
-/

namespace AureliaPeering.Blob

open ReserveSide List Option

def onSide (own : BlobBufferSide) (bytes : Nat) (side : BlobBufferSide) : Nat :=
  if own = side then bytes else 0

theorem BlobBufferTracker.used_store (tracker : BlobBufferTracker) (own side : BlobBufferSide)
    (value : Nat) :
    (tracker.store own value).used side = if own = side then value else tracker.used side := by
  cases own <;> cases side <;> rfl

def ReserveSide.Checked (attempt : ReserveSide) : Prop :=
  ∀ current, attempt.current = some current → current + attempt.bytes ≤ attempt.cap

/-- The value a release is about to replace covers it, and always has. -/
structure ReleaseSide.Covered (attempt : ReleaseSide) : Prop where
  enough : ∀ current, attempt.current = some current → attempt.bytes ≤ current
  unclamped : attempt.underflow = false

section Attempts

variable {tracker after : BlobBufferTracker}
variable {attempt : ReleaseSide} {spurious : Bool}

theorem ReserveSide.start_checked (side : BlobBufferSide) (bytes cap : Nat) :
    (start side bytes cap).Checked := by
  intro current loaded
  cases loaded

theorem ReleaseSide.start_covered (side : BlobBufferSide) (bytes : Nat) :
    (ReleaseSide.start side bytes).Covered := by
  refine ⟨fun current loaded => ?_, rfl⟩
  cases loaded

theorem ReserveSide.turn_running {attempt next : ReserveSide}
    (turned : attempt.turn tracker = .running next) :
    next.side = attempt.side ∧ next.bytes = attempt.bytes ∧ next.Checked := by
  unfold turn at turned
  split at turned
  · dsimp only at turned
    split_ifs at turned with tooLarge overCap
    obtain rfl := ReserveTurn.running.inj turned
    refine ⟨rfl, rfl, fun current loaded => ?_⟩
    cases loaded
    exact Nat.le_of_not_gt overCap
  · split_ifs at turned with unchanged
    obtain rfl := ReserveTurn.running.inj turned
    exact ⟨rfl, rfl, fun current loaded => by cases loaded⟩

theorem ReserveSide.turn_reserved {attempt : ReserveSide} (checked : attempt.Checked)
    (turned : attempt.turn tracker = .finished true after) :
    (∀ side, after.used side = tracker.used side + onSide attempt.side attempt.bytes side) ∧
      after.used attempt.side ≤ attempt.cap := by
  unfold turn at turned
  split at turned
  · dsimp only at turned
    split_ifs at turned
    all_goals cases turned
  · rename_i current loaded
    split_ifs at turned with unchanged
    obtain rfl := (ReserveTurn.finished.inj turned).2
    refine ⟨fun side => ?_, ?_⟩
    · rw [BlobBufferTracker.used_store, onSide]
      split_ifs with same
      · rw [← unchanged, same]
      · rfl
    · rw [BlobBufferTracker.used_store, if_pos rfl]
      exact checked current loaded

theorem ReleaseSide.observe_covered (covered : attempt.Covered)
    {value : Nat} (enough : attempt.bytes ≤ value) : (attempt.observe value).Covered := by
  refine ⟨fun current loaded => ?_, ?_⟩
  · cases loaded
    exact enough
  · simp [ReleaseSide.observe, covered.unclamped, Nat.not_lt.mpr enough]

theorem ReleaseSide.turn_running {next : ReleaseSide} (covered : attempt.Covered)
    (enough : attempt.bytes ≤ tracker.used attempt.side)
    (turned : attempt.turn tracker spurious = .running next) :
    next.side = attempt.side ∧ next.bytes = attempt.bytes ∧ next.Covered := by
  unfold ReleaseSide.turn at turned
  split at turned
  · obtain rfl := ReleaseTurn.running.inj turned
    exact ⟨rfl, rfl, ReleaseSide.observe_covered covered enough⟩
  · split_ifs at turned
    obtain rfl := ReleaseTurn.running.inj turned
    exact ⟨rfl, rfl, ReleaseSide.observe_covered covered enough⟩

theorem ReleaseSide.turn_released (covered : attempt.Covered)
    {underflow : Bool}
    (turned : attempt.turn tracker spurious = .finished underflow after) :
    (∀ side, after.used side + onSide attempt.side attempt.bytes side = tracker.used side) ∧
      underflow = false := by
  unfold ReleaseSide.turn at turned
  split at turned
  · cases turned
  · rename_i current loaded
    split_ifs at turned with exchanged
    obtain ⟨rfl, rfl⟩ := ReleaseTurn.finished.inj turned
    have enough := covered.enough current loaded
    refine ⟨fun side => ?_, covered.unclamped⟩
    rw [BlobBufferTracker.used_store, onSide, ReleaseSide.remaining,
      if_neg (Nat.not_lt.mpr enough)]
    split_ifs with same
    · rw [← same, exchanged.1, Nat.sub_add_cancel enough]
    · rfl

end Attempts

def Call.releasing (side : BlobBufferSide) : Call → Nat
  | .release attempt => onSide attempt.side attempt.bytes side
  | _ => 0

def Call.half (side : BlobBufferSide) : Call → Nat
  | .pairInbound outboundBytes _ => onSide .outbound outboundBytes side
  | .pairRollback attempt => onSide attempt.side attempt.bytes side
  | _ => 0

def Call.charge (side : BlobBufferSide) (call : Call) : Nat :=
  call.releasing side + call.half side

def Call.Sound : Call → Prop
  | .reserve attempt => attempt.Checked
  | .pairOutbound attempt _ _ => attempt.Checked ∧ attempt.side = .outbound
  | .pairInbound _ attempt => attempt.Checked ∧ attempt.side = .inbound
  | .pairRollback attempt => attempt.Covered
  | .release attempt => attempt.Covered
  | .returned _ => True

def Call.isPair : Call → Bool
  | .pairOutbound _ _ _ | .pairInbound _ _ | .pairRollback _ | .returned (.pairFailed _) => true
  | _ => false

/-- A task between two atomic operations: the net effect of a pair reservation that has not
succeeded is the half it still holds. -/
structure Task.Sound (task : Task) : Prop where
  call : task.call.Sound
  unclamped : task.underflow = false
  effect : task.call.isPair = true →
    task.outboundEffect = task.call.half .outbound ∧ task.inboundEffect = task.call.half .inbound

theorem Task.Sound.start {call : Call} (sound : call.Sound)
    (noHalf : ∀ side, call.half side = 0) : (Task.start call).Sound :=
  ⟨sound, rfl, fun _ => by simp [Task.start, noHalf]⟩

/-- What one atomic operation of a task does to the balance. -/
structure Turn.Exact (turn : Turn) (task : Task) (tracker : BlobBufferTracker) : Prop where
  sound : turn.task.Sound
  balance : ∀ side, turn.tracker.used side + task.call.charge side =
    tracker.used side + turn.task.call.charge side +
      (turn.grants.map fun grant => onSide grant.side grant.bytes side).sum
  capped : ∀ reservation ∈ turn.reserved, reservation.value ≤ reservation.cap

section Turns

variable {task : Task} {tracker after : BlobBufferTracker}

variable {next : Call} {attempt : ReleaseSide} {spurious : Bool}

/-- A turn that only moves the program counter. -/
theorem Task.stay_exact (sound : task.Sound) (nextSound : next.Sound)
    (pair : next.isPair = true → task.call.isPair = true)
    (releasing : ∀ side, next.releasing side = task.call.releasing side)
    (half : ∀ side, next.half side = task.call.half side) :
    (task.stay tracker next).Exact task tracker := by
  refine ⟨⟨nextSound, sound.unclamped, fun isPair => ?_⟩, fun side => ?_, ?_⟩
  · show task.outboundEffect = next.half .outbound ∧ task.inboundEffect = next.half .inbound
    rw [half, half]
    exact sound.effect (pair isPair)
  · show tracker.used side + task.call.charge side = tracker.used side + next.charge side + 0
    rw [Call.charge, Call.charge, releasing, half, Nat.add_zero]
  · intro reservation listed
    cases listed

theorem Task.goto_effect (task : Task) (tracker after : BlobBufferTracker) (next : Call) :
    (task.goto next tracker after).outboundEffect =
        task.outboundEffect + (after.used .outbound - tracker.used .outbound : Int) ∧
      (task.goto next tracker after).inboundEffect =
        task.inboundEffect + (after.used .inbound - tracker.used .inbound : Int) :=
  ⟨rfl, rfl⟩

/-- A turn in which a reservation succeeds: what it added is a half or a grant. -/
theorem Task.reserved_exact (sound : task.Sound) {attempt : ReserveSide}
    (checked : attempt.Checked) (turned : attempt.turn tracker = .finished true after)
    (nextSound : next.Sound) {grants : List Grant}
    (pair : next.isPair = true → task.call.isPair = true ∧ grants = [])
    (releasing : ∀ side, next.releasing side = task.call.releasing side)
    (half : ∀ side, task.call.half side + onSide attempt.side attempt.bytes side =
      next.half side + (grants.map fun grant => onSide grant.side grant.bytes side).sum) :
    (task.reserved tracker after attempt next grants).Exact task tracker := by
  obtain ⟨added, capped⟩ := turn_reserved checked turned
  refine ⟨⟨nextSound, sound.unclamped, fun isPair => ?_⟩, fun side => ?_, ?_⟩
  · obtain ⟨wasPair, rfl⟩ := pair isPair
    obtain _ := sound.effect wasPair
    obtain _ := Task.goto_effect task tracker after next
    have outboundHalf := half .outbound
    have inboundHalf := half .inbound
    have outboundAdded := added .outbound
    have inboundAdded := added .inbound
    simp only [map_nil, sum_nil] at outboundHalf inboundHalf
    show (task.goto next tracker after).outboundEffect = next.half .outbound ∧
      (task.goto next tracker after).inboundEffect = next.half .inbound
    omega
  · have := half side
    show after.used side + task.call.charge side = tracker.used side + next.charge side +
      (grants.map fun grant => onSide grant.side grant.bytes side).sum
    rw [added side, Call.charge, Call.charge, releasing]
    omega
  · intro reservation listed
    obtain rfl := mem_singleton.mp listed
    exact capped

/-- A turn in which a release goes on. -/
theorem Task.releasing_exact (sound : task.Sound)
    (covered : attempt.Covered) (nextSound : next.Sound)
    (pair : next.isPair = true → task.call.isPair = true)
    (releasing : ∀ side, next.releasing side = task.call.releasing side)
    (half : ∀ side, next.half side = task.call.half side) :
    (task.releasing tracker attempt next).Exact task tracker := by
  have stayed : (task.stay tracker next).Exact task tracker :=
    Task.stay_exact sound nextSound pair releasing half
  refine ⟨⟨stayed.sound.call, ?_, stayed.sound.effect⟩, stayed.balance, stayed.capped⟩
  simp [Task.releasing, sound.unclamped, covered.unclamped]

/-- A turn in which a release takes effect: what it took off was a half or a grant. -/
theorem Task.released_exact (sound : task.Sound)
    (covered : attempt.Covered) {underflow : Bool} {result : Returned}
    (turned : attempt.turn tracker spurious = .finished underflow after)
    (pair : (Call.returned result).isPair = true →
      task.call.isPair = true ∧
      ∀ side, task.call.half side = onSide attempt.side attempt.bytes side)
    (charge : ∀ side, task.call.charge side = onSide attempt.side attempt.bytes side) :
    (task.released tracker after underflow result).Exact task tracker := by
  obtain ⟨taken, unclamped⟩ := ReleaseSide.turn_released covered turned
  refine ⟨⟨trivial, ?_, fun isPair => ?_⟩, fun side => ?_, ?_⟩
  · simp [Task.released, sound.unclamped, unclamped]
  · obtain ⟨wasPair, half⟩ := pair isPair
    obtain ⟨outbound, inbound⟩ := sound.effect wasPair
    rw [half] at outbound inbound
    have outboundTaken := taken .outbound
    have inboundTaken := taken .inbound
    have effects := Task.goto_effect task tracker after (.returned result)
    show (task.goto (.returned result) tracker after).outboundEffect = 0 ∧
      (task.goto (.returned result) tracker after).inboundEffect = 0
    omega
  · show after.used side + task.call.charge side = tracker.used side + 0 + 0
    rw [charge side, taken side, Nat.add_zero]
  · intro reservation listed
    cases listed

/-- One atomic operation of a sound task whose charge is in the counters. -/
theorem Task.turn_exact (sound : task.Sound)
    (charged : ∀ side, task.call.charge side ≤ tracker.used side) {turn : Turn}
    (turned : task.turn tracker spurious = some turn) : turn.Exact task tracker := by
  have callSound := sound.call
  unfold Task.turn at turned
  split at turned
  case h_1 attempt isCall =>
      rw [isCall] at callSound
      split at turned
      all_goals rename_i attempted
      all_goals obtain rfl := some.inj turned
      · obtain ⟨_, _, checked⟩ := turn_running attempted
        exact Task.stay_exact sound checked (by simp [Call.isPair])
          (by simp [Call.releasing, isCall]) (by simp [Call.half, isCall])
      · exact Task.stay_exact sound trivial (by simp [Call.isPair])
          (by simp [Call.releasing, isCall]) (by simp [Call.half, isCall])
      · refine Task.reserved_exact sound callSound attempted ?_ (by simp [Call.isPair])
          (by simp [Call.releasing, isCall]) (by simp [Call.half, isCall])
        exact trivial
  case h_2 attempt inboundBytes inboundCap isCall =>
      rw [isCall] at callSound
      obtain ⟨checked, isOutbound⟩ := callSound
      split at turned
      all_goals rename_i attempted
      all_goals obtain rfl := some.inj turned
      · obtain ⟨sameSide, _, nextChecked⟩ := turn_running attempted
        exact Task.stay_exact sound ⟨nextChecked, sameSide.trans isOutbound⟩
          (by simp [Call.isPair, isCall]) (by simp [Call.releasing, isCall])
          (by simp [Call.half, isCall])
      · exact Task.stay_exact sound trivial (by simp [Call.isPair, isCall])
          (by simp [Call.releasing, isCall]) (by simp [Call.half, isCall])
      · refine Task.reserved_exact sound checked attempted ?_
          (by simp [Call.isPair, isCall]) (by simp [Call.releasing, isCall])
          (by simp [Call.half, isCall, isOutbound])
        exact ⟨start_checked .inbound inboundBytes inboundCap, rfl⟩
  case h_3 outboundBytes attempt isCall =>
      rw [isCall] at callSound
      obtain ⟨checked, isInbound⟩ := callSound
      split at turned
      all_goals rename_i attempted
      all_goals obtain rfl := some.inj turned
      · obtain ⟨sameSide, _, nextChecked⟩ := turn_running attempted
        exact Task.stay_exact sound ⟨nextChecked, sameSide.trans isInbound⟩
          (by simp [Call.isPair, isCall]) (by simp [Call.releasing, isCall])
          (by simp [Call.half, isCall])
      · exact Task.stay_exact sound (ReleaseSide.start_covered .outbound outboundBytes)
          (by simp [Call.isPair, isCall]) (by simp [Call.releasing, isCall])
          (by simp [Call.half, isCall, ReleaseSide.start])
      · refine Task.reserved_exact sound checked attempted ?_ (by simp [Call.isPair])
          (by simp [Call.releasing, isCall]) (by simp [Call.half, isCall, isInbound])
        exact trivial
  case h_4 attempt isCall =>
      rw [isCall] at callSound
      have enough := charged attempt.side
      simp only [isCall, Call.charge, Call.releasing, Call.half, onSide, if_pos, Nat.zero_add]
        at enough
      split at turned
      all_goals rename_i attempted
      all_goals obtain rfl := some.inj turned
      · obtain ⟨sameSide, sameBytes, covered⟩ :=
          ReleaseSide.turn_running callSound enough attempted
        exact Task.releasing_exact sound covered covered (by simp [Call.isPair, isCall])
          (by simp [Call.releasing, isCall]) (by simp [Call.half, isCall, sameSide, sameBytes])
      · exact Task.released_exact sound callSound attempted
          (by simp [Call.isPair, Call.half, isCall])
          (by simp [Call.charge, Call.releasing, Call.half, isCall])
  case h_5 attempt isCall =>
      rw [isCall] at callSound
      have enough := charged attempt.side
      simp only [isCall, Call.charge, Call.releasing, Call.half, onSide, if_pos, Nat.add_zero]
        at enough
      split at turned
      all_goals rename_i attempted
      all_goals obtain rfl := some.inj turned
      · obtain ⟨sameSide, sameBytes, covered⟩ :=
          ReleaseSide.turn_running callSound enough attempted
        exact Task.releasing_exact sound covered covered (by simp [Call.isPair])
          (by simp [Call.releasing, isCall, sameSide, sameBytes]) (by simp [Call.half, isCall])
      · exact Task.released_exact sound callSound attempted
          (by simp [Call.isPair]) (by simp [Call.charge, Call.releasing, Call.half, isCall])
  case h_6 => cases turned

end Turns

namespace TrackerRun

/-- The grants that have not been given back: those held, and those whose release has not taken
effect yet. -/
def outstanding (run : TrackerRun) (side : BlobBufferSide) : Nat :=
  (run.grants.map fun grant => onSide grant.side grant.bytes side).sum +
    (run.tasks.map fun task => task.call.releasing side).sum

def halves (run : TrackerRun) (side : BlobBufferSide) : Nat :=
  (run.tasks.map fun task => task.call.half side).sum

def charges (run : TrackerRun) (side : BlobBufferSide) : Nat :=
  (run.tasks.map fun task => task.call.charge side).sum

structure Sound (run : TrackerRun) : Prop where
  tasks : ∀ task ∈ run.tasks, task.Sound
  balance : ∀ side, run.tracker.used side =
    (run.grants.map fun grant => onSide grant.side grant.bytes side).sum + run.charges side
  capped : ∀ reservation ∈ run.reserved, reservation.value ≤ reservation.cap

theorem sound_initial : initial.Sound := by
  refine ⟨fun task listed => ?_, fun side => ?_, fun reservation listed => ?_⟩
  · cases listed
  · cases side <;> rfl
  · cases listed

variable {run : TrackerRun}

/-- A call starts without a half.  What it is to release, it was given with the call. -/
theorem Sound.call (sound : run.Sound) {held : List Grant} {call : Call} (callSound : call.Sound)
    (noHalf : ∀ side, call.half side = 0)
    (given : ∀ side, (run.grants.map fun grant => onSide grant.side grant.bytes side).sum =
      call.releasing side + (held.map fun grant => onSide grant.side grant.bytes side).sum) :
    ({ run with grants := held }.call call).Sound := by
  refine ⟨fun task listed => ?_, fun side => ?_, sound.capped⟩
  · rcases mem_append.mp listed with old | new
    · exact sound.tasks task old
    · obtain rfl := mem_singleton.mp new
      exact .start callSound noHalf
  · have balance := sound.balance side
    rw [given side] at balance
    simp only [charges, TrackerRun.call, map_append, map_singleton, sum_append,
      sum_singleton, Task.start, Call.charge, noHalf, Nat.add_zero] at balance ⊢
    omega

theorem Sound.release (sound : run.Sound) {index : Nat} {grant : Grant}
    (held : run.grants[index]? = some grant) :
    ((run.surrender index).call (.release (.start grant.side grant.bytes))).Sound :=
  sound.call (ReleaseSide.start_covered grant.side grant.bytes) (fun _ => rfl)
    (fun _ => Slots.sum_map_eraseIdx _ held)

theorem Sound.turn (sound : run.Sound) {index : Nat} {task : Task} {turn : Turn} {spurious : Bool}
    (found : run.tasks[index]? = some task)
    (turned : task.turn run.tracker spurious = some turn) :
    (TrackerRun.mk turn.tracker (run.tasks.set index turn.task) (run.grants ++ turn.grants)
      (run.reserved ++ turn.reserved)).Sound := by
  have listed := mem_of_getElem? found
  have charged : ∀ side, task.call.charge side ≤ run.tracker.used side := by
    intro side
    rw [sound.balance side, charges, Slots.sum_map_eraseIdx _ found]
    omega
  have exact := Task.turn_exact (sound.tasks task listed) charged turned
  refine ⟨fun other otherListed => ?_, fun side => ?_, fun reservation reserved => ?_⟩
  · rcases mem_or_eq_of_mem_set otherListed with old | rfl
    · exact sound.tasks other old
    · exact exact.sound
  · have before := sound.balance side
    have balance := exact.balance side
    have tasks := Slots.sum_map_set (fun task : Task => task.call.charge side) found turn.task
    simp only [charges, map_append, sum_append] at before ⊢
    omega
  · rcases mem_append.mp reserved with old | new
    · exact sound.capped reservation old
    · exact exact.capped reservation new

theorem Sound.step (sound : run.Sound) {label : Label} {next : TrackerRun}
    (taken : run.step label = some next) : next.Sound := by
  cases label with
  | tryReserve side bytes cap =>
    cases taken
    exact sound.call (start_checked side bytes cap) (fun _ => rfl)
      (fun _ => (Nat.zero_add _).symm)
  | tryReservePair outboundBytes outboundCap inboundBytes inboundCap =>
    cases taken
    exact sound.call ⟨start_checked .outbound outboundBytes outboundCap, rfl⟩
      (fun _ => rfl)
      (fun _ => (Nat.zero_add _).symm)
  | release index =>
    obtain ⟨grant, held, rfl⟩ := map_eq_some_iff.mp taken
    exact sound.release held
  | dropDuplex index =>
    obtain ⟨grant, held, rfl⟩ := map_eq_some_iff.mp taken
    split_ifs with nothing
    · refine ⟨sound.tasks, fun side => ?_, sound.capped⟩
      have balance := sound.balance side
      rw [Slots.sum_map_eraseIdx _ held, nothing, onSide, ite_self, Nat.zero_add] at balance
      exact balance
    · exact sound.release held
  | turn index spurious =>
    obtain ⟨_, found, turned⟩ := bind_eq_some_iff.mp taken
    obtain ⟨turn, advanced, rfl⟩ := map_eq_some_iff.mp turned
    exact sound.turn found advanced

/-- What the tracker's clients rely on, in the state between two atomic operations. -/
structure Exact (run : TrackerRun) : Prop where
  used : ∀ side, run.tracker.used side = run.outstanding side + run.halves side
  capped : ∀ reservation ∈ run.reserved, reservation.value ≤ reservation.cap
  unclamped : ∀ task ∈ run.tasks, task.underflow = false
  failedPair : ∀ task ∈ run.tasks, ∀ side, task.call = .returned (.pairFailed side) →
    task.outboundEffect = 0 ∧ task.inboundEffect = 0

theorem Sound.exact (sound : run.Sound) : run.Exact := by
  refine ⟨fun side => ?_, sound.capped, fun task listed => (sound.tasks task listed).unclamped,
    fun task listed side failed => ?_⟩
  · have charges : run.charges side = _ + run.halves side := sum_map_add
    rw [sound.balance side, charges, outstanding, Nat.add_assoc]
  · have effect := (sound.tasks task listed).effect
    rw [failed] at effect
    exact effect rfl

/-- Under every interleaving of any number of calls, the counters are exact. -/
theorem exact_of_reachable (reached : system.Reachable run) : run.Exact := by
  refine Sound.exact (reached.invariant ?_ ?_)
  · rintro _ rfl
    exact sound_initial
  · intro _ _ _ sound taken
    exact sound.step taken

/-- A pair reservation that a full inbound side rolls back, while another call is served from the
same outbound counter and released. -/
theorem exact_of_reachable_rolledBack : ∃ run, system.Reachable run ∧ run.Exact ∧
    run.tasks.map Task.call = [.returned (.reserve true), .returned (.pairFailed .inbound),
      .returned .release] ∧ run.reserved = [⟨.outbound, 10, 4⟩, ⟨.outbound, 10, 9⟩] := by
  obtain ⟨run, reached, calls, reserved⟩ : ∃ run, system.Reachable run ∧
      run.tasks.map Task.call = [.returned (.reserve true), .returned (.pairFailed .inbound),
        .returned .release] ∧ run.reserved = [⟨.outbound, 10, 4⟩, ⟨.outbound, 10, 9⟩] :=
    Machine.System.exists_reachable [.tryReserve .outbound 5 10, .tryReservePair 4 10 3 2,
      .turn 0 false, .turn 1 false, .turn 1 false, .turn 0 false, .turn 0 false, .turn 0 false,
      .turn 1 false, .release 0, .turn 1 false, .turn 2 false, .turn 1 true, .turn 2 false,
      .turn 1 false, .turn 1 false] rfl (by decide)
  exact ⟨run, reached, exact_of_reachable reached, calls, reserved⟩

end TrackerRun

end AureliaPeering.Blob
