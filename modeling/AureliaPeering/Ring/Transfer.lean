import AureliaPeering.Lib.Machine
import AureliaPeering.Ring.History
import AureliaPeering.Ring.Reassembly

/-!
A blob transfer: an outbound ring, an inbound ring of the same size, and a network between them.

The network holds every lease ever handed out and may deliver any of them at any time, any number
of times.
-/

namespace AureliaPeering.Ring

open List

structure Transfer where
  sender : OutboundHistory
  receiver : InboundRingBuffer
  delivered : Bytes

namespace Transfer

inductive Label where
  | sender (op : RingOp)
  | deliver (lease : ChunkWriteLease)
  | takeNext
deriving DecidableEq, Repr

def step (net : Transfer) : Label → Option Transfer
  | .sender op => some { net with sender := net.sender.apply op }
  | .deliver lease =>
    if lease ∈ net.sender.leases then
      some { net with receiver := (net.receiver.insertChunk lease.toChunk).1 }
    else none
  | .takeNext =>
    net.receiver.takeNext.map fun (data, receiver) =>
      { net with receiver := receiver, delivered := net.delivered ++ data }

def start (size : RingSize) : Transfer := ⟨.new size, .new size, []⟩

def system (size : RingSize) : Machine.System Transfer Label :=
  .ofStep (· = start size) step

/-- What was taken is a first part of what was created. -/
def Coherent (net : Transfer) : Prop :=
  ∃ created taken, net.sender.Sound created ∧
    net.receiver.Reassembled (· ∈ created) taken ∧ net.delivered = taken.flatMap Chunk.data

variable {net : Transfer} {receiver : InboundRingBuffer} {created taken : List Chunk}

theorem Coherent.start (size : RingSize) : (start size).Coherent :=
  ⟨[], [], .start size, .start _ size, rfl⟩

theorem Coherent.step {next : Transfer} {label : Label} (coherent : net.Coherent)
    (taken : net.step label = some next) : next.Coherent := by
  obtain ⟨created, read, sound, reassembled, delivered⟩ := coherent
  cases label with
  | sender op =>
    cases taken
    obtain ⟨new, _, applied⟩ := sound.apply op
    exact ⟨created ++ new, read, applied,
      reassembled.mono fun _ => mem_append_left new, delivered⟩
  | deliver lease =>
    obtain ⟨leased, result⟩ := Option.ite_none_right_eq_some.mp taken
    cases result
    exact ⟨created, read, sound, reassembled.insertChunk (sound.leased lease leased), delivered⟩
  | takeNext =>
    obtain ⟨⟨data, receiver⟩, took, rfl⟩ := Option.map_eq_some_iff.mp taken
    obtain ⟨chunk, rfl, reassembled⟩ := reassembled.takeNext took
    exact ⟨created, read ++ [chunk], sound, reassembled, by simp [delivered]⟩

theorem coherent_of_reachable {size : RingSize}
    (reached : (system size).Reachable net) : net.Coherent :=
  reached.invariant (fun _ initial => initial ▸ .start size)
    (fun _ _ _ coherent taken => coherent.step taken)

/-- Ids below the largest `u64` are positions, and the receiver stores no others. -/
theorem taken_prefix_of_created {chunks : OutboundChunks} (sent : chunks.Materialised created)
    (reassembled : receiver.Reassembled (· ∈ created) taken) : taken <+: created := by
  rw [prefix_iff_getElem?]
  intro index bound
  have entry : taken[index]? = some taken[index] := getElem?_eq_getElem bound
  obtain ⟨position, found⟩ := mem_iff_getElem?.mp
    (reassembled.sent _ (mem_of_getElem? entry))
  have id := reassembled.numbered index _ entry
  have numbered := sent.numbered position _ found
  have small := reassembled.bounded
  rw [reassembled.counted] at small
  obtain rfl : position = index := by omega
  exact found

theorem complete_of_created {history : OutboundHistory} (sound : history.Sound created)
    (reassembled : receiver.Reassembled (· ∈ created) taken) (complete : receiver.isComplete) :
    taken = created ∧ history.ring.chunks.Sealed created := by
  have first := taken_prefix_of_created sound.assembled.toMaterialised reassembled
  obtain ⟨_, chunk, entry, isLast⟩ := reassembled.last_taken complete
  have listed := first.subset (mem_of_getElem? entry)
  rcases sound.staged with unsealed | sealed
  · have := unsealed.unflagged chunk listed
    simp [isLast] at this
  · refine ⟨?_, sealed⟩
    obtain ⟨_, _, rfl, _, unflagged⟩ := sealed.flagged
    rcases prefix_concat_iff.mp first with all | short
    · exact all
    · have := unflagged chunk (short.subset (mem_of_getElem? entry))
      simp [isLast] at this

/-- What the receiving ring hands out is a first part of what the sending ring accepted, and all of
it once the receiving ring is complete. -/
theorem delivered_prefix_of_accepted (size : RingSize) (net : Transfer)
    (reached : (system size).Reachable net) :
    net.delivered <+: net.sender.accepted ∧
      (net.receiver.isComplete = true → net.delivered = net.sender.accepted) := by
  obtain ⟨_, _, sound, reassembled, delivered⟩ := coherent_of_reachable reached
  have bytes := sound.assembled.bytes
  constructor
  · obtain ⟨_, whole⟩ := taken_prefix_of_created sound.assembled.toMaterialised reassembled
    rw [delivered, ← bytes, ← whole, flatMap_append, append_assoc]
    exact prefix_append _ _
  · intro complete
    obtain ⟨rfl, sealed⟩ := complete_of_created sound reassembled complete
    rw [delivered, ← bytes, sealed.noPending, sealed.noPartial]
    simp

def pairs : RingSize := ⟨2, 2, Nat.two_pos, Nat.two_pos⟩

/-- Three bytes in chunks of two.  The first callis is lost after both writes, and the first chunk
arrives from both attempts. -/
def replayedTransfer : List Label :=
  [.sender (.push [1, 2, 3]), .sender .sealTurn, .sender (.lease 7 100), .sender (.lease 7 101),
    .sender (.markInflight ⟨⟨0, [1, 2], false⟩, 100, 7, 1⟩),
    .deliver ⟨⟨0, [1, 2], false⟩, 100, 7, 1⟩, .sender (.loseCallis 7), .sender (.lease 8 102),
    .deliver ⟨⟨0, [1, 2], false⟩, 102, 8, 2⟩, .takeNext, .deliver ⟨⟨1, [3], true⟩, 101, 7, 1⟩,
    .takeNext, .sender (.ack 102)]

theorem delivered_prefix_of_accepted_replayed :
    ∃ net, Machine.exec step (start pairs) replayedTransfer = some net ∧
      net.receiver.isComplete = true ∧ net.sender.accepted = [1, 2, 3] ∧
      net.delivered = [1, 2, 3] := by
  have ends : (Machine.exec step (start pairs) replayedTransfer).any (fun net =>
      net.receiver.isComplete && net.sender.accepted == [1, 2, 3]) = true := by decide
  obtain ⟨net, ran, observed⟩ := (Option.any_eq_true _ _).mp ends
  obtain ⟨complete, accepted⟩ := Bool.and_eq_true_iff.mp observed
  have initial : (system pairs).Reachable (start pairs) := .start rfl
  have reached := initial.exec (fun _ _ _ taken => taken) replayedTransfer ran
  have whole := (delivered_prefix_of_accepted pairs net reached).2 complete
  exact ⟨net, ran, complete, eq_of_beq accepted, whole.trans (eq_of_beq accepted)⟩

end Transfer

end AureliaPeering.Ring
