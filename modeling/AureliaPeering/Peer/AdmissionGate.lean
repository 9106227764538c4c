import AureliaPeering.Config.DomusConfig
import AureliaPeering.Lib.Machine
import AureliaPeering.Lib.Slots
import Mathlib.Data.List.Induction

/-!
The gates that bound concurrent handshakes: a counter that every call increments before it compares
with the limit it read, and that a refused call or a dropped permit decrements.

The counter is an integer here, so that an underflow shows as a negative value.
-/

namespace AureliaPeering.Peer

open Config

inductive Gate where
  | handshake
  | preAuth

def Gate.limit (config : DomusConfig) : Gate → Nat
  | handshake => max config.inboundHandshakeLimitPerPeer 1
  | preAuth => max config.inboundHandshakeLimitTotal 1

structure Admission where
  next : Int
  limit : Nat
  granted : Bool

/-- `admissions` are listed in the order of their increments. -/
structure GateRun where
  inflight : Int
  admissions : List Admission

inductive GateLabel where
  | increment (config : DomusConfig)
  | decide (index : Nat)
  | dropPermit (index : Nat)

namespace GateRun

def start : GateRun := ⟨0, []⟩

def permits (run : GateRun) : List Admission := run.admissions.filter (·.granted)

def attempts (run : GateRun) : List Admission := run.admissions.filter fun call => !call.granted

/-- A call compares what its increment returned, and a refused one decrements. -/
def step (gate : Gate) (run : GateRun) : GateLabel → Option GateRun
  | .increment config => some
    ⟨run.inflight + 1, run.admissions ++ [⟨run.inflight + 1, gate.limit config, false⟩]⟩
  | .decide index => do
    let call ← run.admissions[index]?
    if call.granted then none
    else if call.limit < call.next then
      some ⟨run.inflight - 1, run.admissions.eraseIdx index⟩
    else some { run with admissions := run.admissions.set index { call with granted := true } }
  | .dropPermit index => do
    let call ← run.admissions[index]?
    if call.granted then some ⟨run.inflight - 1, run.admissions.eraseIdx index⟩ else none

def system (gate : Gate) : Machine.System GateRun GateLabel := .ofStep (· = start) (step gate)

/-- Whoever incremented before a call and has not left was counted by it. -/
structure Inv (run : GateRun) : Prop where
  counted : run.inflight = run.admissions.length
  numbered : ∀ (index : Nat) call, run.admissions[index]? = some call → index < call.next
  within : ∀ call ∈ run.admissions, call.granted = true → call.next ≤ call.limit

variable {run next : GateRun} {gate : Gate}

theorem Inv.leave (inv : run.Inv) {index : Nat} {call : Admission}
    (found : run.admissions[index]? = some call) :
    Inv ⟨run.inflight - 1, run.admissions.eraseIdx index⟩ := by
  have bound := (List.getElem?_eq_some_iff.mp found).1
  refine ⟨?_, fun other earlier listed => ?_, fun earlier listed => ?_⟩
  · simp only [inv.counted, List.length_eraseIdx_of_lt bound]
    omega
  · rw [List.getElem?_eraseIdx] at listed
    split at listed
    · exact inv.numbered other earlier listed
    · have later := inv.numbered _ earlier listed
      omega
  · exact inv.within earlier (List.mem_of_mem_eraseIdx listed)

theorem Inv.step (inv : run.Inv) {label : GateLabel} (taken : run.step gate label = some next) :
    next.Inv := by
  cases label with
  | increment config =>
    cases taken
    refine ⟨by simp [inv.counted], fun index call found => ?_, fun call listed granted => ?_⟩
    · rcases Slots.getElem?_concat_eq_some.mp found with old | ⟨rfl, rfl⟩
      · exact inv.numbered index call old
      · simp only [inv.counted]
        omega
    · rcases List.mem_append.mp listed with old | new
      · exact inv.within call old granted
      · obtain rfl := List.mem_singleton.mp new
        cases granted
  | decide index =>
    obtain ⟨call, found, decided⟩ := Option.bind_eq_some_iff.mp taken
    split_ifs at decided with granted refused
    · cases decided
      exact inv.leave found
    · cases decided
      refine ⟨by simp [inv.counted], fun other admission listed => ?_, fun admission listed => ?_⟩
      · rcases Slots.of_getElem?_set listed with ⟨rfl, rfl⟩ | ⟨_, old⟩
        · exact inv.numbered index call found
        · exact inv.numbered other admission old
      · rcases List.mem_or_eq_of_mem_set listed with old | rfl
        · exact inv.within admission old
        · exact fun _ => Int.not_lt.mp refused
  | dropPermit index =>
    obtain ⟨call, found, dropped⟩ := Option.bind_eq_some_iff.mp taken
    obtain ⟨_, ⟨⟩⟩ := Option.ite_none_right_eq_some.mp dropped
    exact inv.leave found

theorem Inv.reached (reached : (system gate).Reachable run) : run.Inv := by
  refine reached.invariant ?_ fun _ _ _ inv taken => inv.step taken
  rintro _ rfl
  exact ⟨rfl, nofun, nofun⟩

/-- Among the admissions of a list that number their predecessors, the last permit bounds how many
permits there are. -/
theorem exists_permit {admissions : List Admission}
    (numbered : ∀ (index : Nat) call, admissions[index]? = some call → index < call.next)
    (within : ∀ call ∈ admissions, call.granted = true → call.next ≤ call.limit)
    (some : admissions.filter (·.granted) ≠ []) :
    ∃ permit ∈ admissions.filter (·.granted),
      (admissions.filter (·.granted)).length ≤ permit.limit := by
  induction admissions using List.reverseRecOn with
  | nil => exact absurd rfl some
  | append_singleton earlier last ih =>
    cases granted : last.granted with
    | true =>
      refine ⟨last, by simp [granted], ?_⟩
      have counts := numbered earlier.length last (by simp)
      have bound := within last (by simp) granted
      have fewer := List.length_filter_le (·.granted) (earlier ++ [last])
      rw [List.length_append, List.length_singleton] at fewer
      omega
    | false =>
      have same : (earlier ++ [last]).filter (·.granted) = earlier.filter (·.granted) := by
        simp [granted]
      rw [same] at some ⊢
      refine ih (fun index call found => ?_) (fun call listed => ?_) some
      · exact numbered index call (Slots.getElem?_concat_eq_some.mpr (.inl found))
      · exact within call (List.mem_append_left _ listed)

/-- In every interleaving of increments, decisions and drops: the counter is the number of permits
and of calls that have not decided, and some live permit was granted under a limit that is not below
the number of live permits. -/
theorem gate_never_over_admits (gate : Gate) (run : GateRun)
    (reached : (system gate).Reachable run) :
    run.inflight = run.permits.length + run.attempts.length ∧ 0 ≤ run.inflight ∧
      (run.permits ≠ [] → ∃ permit ∈ run.permits, run.permits.length ≤ permit.limit) := by
  have inv := Inv.reached reached
  refine ⟨?_, ?_, exists_permit inv.numbered inv.within⟩
  · rw [inv.counted, permits, attempts,
      List.length_eq_length_filter_add (·.granted), Int.natCast_add]
  · rw [inv.counted]
    exact Int.natCast_nonneg _

/-- A second call under a limit of one is counted until it has decided. -/
theorem gate_never_over_admits_pair :
    ∃ run, (system .preAuth).Reachable run ∧ run.permits.length = 1 ∧ run.attempts.length = 1 ∧
      run.inflight = 2 := by
  obtain ⟨run, reached, permits, attempts⟩ : ∃ run, (system .preAuth).Reachable run ∧
      run.permits.length = 1 ∧ run.attempts.length = 1 :=
    Machine.System.exists_reachable [.increment { inboundHandshakeLimitTotal := 1 }, .decide 0,
      .increment { inboundHandshakeLimitTotal := 1 }] rfl (by decide)
  refine ⟨run, reached, permits, attempts, ?_⟩
  rw [(gate_never_over_admits .preAuth run reached).1, permits, attempts]
  rfl

end GateRun

end AureliaPeering.Peer
