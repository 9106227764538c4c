import AureliaPeering.Ring.HeldBytes
import AureliaPeering.Ring.Tracking

/-!
Runs of the chunk table of an outbound ring, whoever calls it.

A run is the table together with what it has done so far: the bytes it accepted, the chunks it
materialised, in the order of their ids, and the leases it handed out.  Operations come in any order
and with any arguments; once `finalize` has succeeded, nothing more is pushed.
-/

namespace AureliaPeering.Ring

open Collections OutboundChunks OutboundSlot List Option

namespace OutboundSlot

def attempt? : OutboundSlot → Option ChunkWriteLease
  | writing chunk peerMsgId callisId seq => some ⟨chunk, peerMsgId, callisId, seq⟩
  | inFlight chunk peerMsgId callisId seq => some ⟨chunk, peerMsgId, callisId, seq⟩
  | _ => none

def isInFlight : OutboundSlot → Bool
  | inFlight _ _ _ _ => true
  | _ => false

variable {slot : OutboundSlot} {lease : ChunkWriteLease}

theorem chunk?_of_attempt?
    (attempted : slot.attempt? = some lease) : slot.chunk? = some lease.toChunk := by
  cases slot <;> cases attempted <;> rfl

theorem attempt?_of_replay {callisId : CallisId}
    (attempted : (slot.replay callisId).attempt? = some lease) : slot.attempt? = some lease := by
  unfold replay at attempted
  split at attempted
  · split_ifs at attempted
    · cases attempted
    · exact attempted
  · split_ifs at attempted
    · cases attempted
    · exact attempted
  · exact attempted

end OutboundSlot

namespace OutboundChunks

variable {chunks next before after : OutboundChunks} {created new : List Chunk}

/-! ### The chunks that an operation materialises -/

/-- The chunks under the ids that were given out between two states. -/
def arrivals (before after : OutboundChunks) : List Chunk :=
  (List.range' before.nextChunkId (after.nextChunkId - before.nextChunkId)).filterMap fun id =>
    (after.chunkIndex.lookup id).bind after.chunkAt

/-- The index finds every chunk where it is. -/
def Sole (chunks : OutboundChunks) : Prop :=
  ∀ index chunk, chunks.chunkAt index = some chunk →
    chunks.chunkIndex.lookup chunk.chunkId = some index

/-- Every attempt in flight has an entry in the acknowledgement map. -/
def Acked (chunks : OutboundChunks) : Prop :=
  ∀ (index : Nat) chunk peerMsgId callisId seq,
    chunks.slots[index]? = some (.inFlight chunk peerMsgId callisId seq) →
    chunks.ackMap.lookup peerMsgId = some chunk.chunkId

variable {index : Nat} {slot : OutboundSlot}

theorem chunkAt_of_attempt? {lease : ChunkWriteLease}
    (found : chunks.slots[index]? = some slot) (attempted : slot.attempt? = some lease) :
    chunks.chunkAt index = some lease.toChunk :=
  (chunkAt_of_slot found).trans (chunk?_of_attempt? attempted)

theorem Sole.unique (sole : chunks.Sole) {other : Nat} {first second : Chunk}
    (found : chunks.chunkAt index = some first) (isOther : chunks.chunkAt other = some second)
    (same : first.chunkId = second.chunkId) : index = other := by
  have here := sole index first found
  rw [same, sole other second isOther] at here
  exact (some.inj here).symm

/-- A chunk that stays in its slot is still found. -/
theorem Sole.pass (sole : chunks.Sole) {old : OutboundSlot}
    (found : chunks.slots[index]? = some old) (slots : next.slots = chunks.slots.set index slot)
    (holds : old.chunk? = slot.chunk?) (chunkIndex : next.chunkIndex = chunks.chunkIndex) :
    next.Sole := by
  intro other chunk here
  rw [chunkAt_pass found slots holds.symm] at here
  rw [chunkIndex, sole other chunk here]

variable (enqueued : before.Enqueued new after)

include enqueued

theorem Enqueued.ackMap_eq : after.ackMap = before.ackMap := by
  induction enqueued with
  | none _ _ ackMap => exact ackMap
  | snoc _ _ _ _ ackMap ih => exact ackMap.trans ih

/-- A slot is as it was, or holds one of the chunks enqueued. -/
theorem Enqueued.slot_cases (found : after.slots[index]? = some slot) :
    before.slots[index]? = some slot ∨ ∃ chunk ∈ new, slot = .ready chunk 0 := by
  induction enqueued with
  | none slots => exact .inl (slots ▸ found)
  | @snoc _ _ _ chunk place _ free slots _ _ ih =>
    rcases Slots.of_getElem?_set (slots ▸ found) with ⟨_, isNew⟩ | ⟨_, old⟩
    · exact .inr ⟨chunk, mem_append_right _ (mem_singleton_self _), isNew⟩
    · apply (ih old).imp_right
      rintro ⟨held, listed, isReady⟩
      exact ⟨held, mem_append_left _ listed, isReady⟩

theorem Enqueued.placed : ∀ chunk ∈ new, ∃ index, after.chunkAt index = some chunk := by
  induction enqueued with
  | none => simp
  | @snoc middle _ _ chunk place _ free slots _ _ ih =>
    intro held listed
    rcases mem_append.mp listed with old | isNew
    · obtain ⟨index, found⟩ := ih held old
      refine ⟨index, ?_⟩
      rw [chunkAt_set free slots, if_neg]
      · exact found
      · rintro rfl
        cases (chunkAt_of_slot free).symm.trans found
    · obtain rfl := mem_singleton.mp isNew
      exact ⟨place, by rw [chunkAt_set free slots, if_pos rfl]; rfl⟩

theorem Enqueued.sole
    (held : ∀ slot ∈ before.slots, ∀ chunk, slot.chunk? = some chunk → chunk ∈ created)
    (distinct : ((created ++ new).map Chunk.chunkId).Nodup) (sole : before.Sole) : after.Sole := by
  induction enqueued with
  | none slots chunkIndex =>
    simpa only [Sole, chunkAt, slots, chunkIndex] using sole
  | @snoc middle after new chunk place earlier free slots chunkIndex _ ih =>
    rw [← append_assoc, map_append, nodup_append] at distinct
    obtain ⟨distinct, _, fresh⟩ := distinct
    intro other kept found
    rw [chunkIndex, HashMap.lookup_insert_eq]
    rw [chunkAt_set free slots] at found
    split at found
    · rename_i same
      cases found
      rw [if_pos rfl, same]
    · rw [if_neg]
      · exact ih distinct other kept found
      · intro same
        obtain ⟨slot, isSlot, holds⟩ := bind_eq_some_iff.mp found
        have listed : kept ∈ created ++ new := by
          rcases earlier.slot_cases isSlot with old | ⟨_, isNew, rfl⟩
          · exact mem_append_left _ (held slot (mem_of_getElem? old) kept holds)
          · cases holds
            exact mem_append_right _ isNew
        exact fresh kept.chunkId (mem_map_of_mem listed) chunk.chunkId (by simp) same

omit enqueued

theorem Materialised.chunkIds (inv : chunks.Materialised created)
    (small : chunks.nextChunkId < u64Max) :
    created.length = chunks.nextChunkId ∧ created.map Chunk.chunkId = range created.length := by
  have counted := inv.counted
  have length : created.length = chunks.nextChunkId := by omega
  refine ⟨length, ext_getElem? fun index => ?_⟩
  rw [getElem?_map]
  cases found : created[index]? with
  | none =>
    have outside := getElem?_eq_none_iff.mp found
    rw [getElem?_eq_none (by simpa using outside)]
    rfl
  | some chunk =>
    have inside := (List.getElem?_eq_some_iff.mp found).1
    have id := inv.numbered index chunk found
    rw [getElem?_range inside, map_some, id]
    exact congrArg some (Nat.min_eq_left (by omega))

theorem Enqueued.arrivals_eq (enqueued : before.Enqueued new after) (sole : after.Sole)
    (inv : before.Materialised created) (assembled : after.Materialised (created ++ new))
    (small : after.nextChunkId < u64Max) : before.arrivals after = new := by
  obtain ⟨length, ids⟩ := assembled.chunkIds small
  have counted := inv.counted
  rw [length_append] at length
  have start : before.nextChunkId = created.length := by omega
  have newIds : new.map Chunk.chunkId = range' created.length new.length := by
    have dropped := congrArg (drop created.length) ids
    rw [map_append, drop_append_of_le_length (by simp), drop_of_length_le (by simp),
      nil_append, range_eq_range', drop_range', length_append] at dropped
    simpa using dropped
  have found : ∀ chunk ∈ new, (after.chunkIndex.lookup chunk.chunkId).bind after.chunkAt =
      some chunk := by
    intro chunk listed
    obtain ⟨index, isChunk⟩ := enqueued.placed chunk listed
    rw [sole index chunk isChunk]
    exact isChunk
  have width : after.nextChunkId - created.length = new.length := by omega
  rw [arrivals, start, width, ← newIds, filterMap_map]
  exact (filterMap_congr found).trans filterMap_some

@[simp]
theorem arrivals_self (chunks : OutboundChunks) : chunks.arrivals chunks = [] := by
  simp [arrivals]

/-! ### The number of attempts in flight -/

def Counted (chunks : OutboundChunks) : Prop :=
  chunks.inflight = chunks.slots.countP OutboundSlot.isInFlight

theorem countP_set {slots : List OutboundSlot} {old : OutboundSlot}
    (found : slots[index]? = some old) (slot : OutboundSlot) :
    (slots.set index slot).countP isInFlight =
      slots.countP isInFlight - (if old.isInFlight then 1 else 0) +
        if slot.isInFlight then 1 else 0 := by
  obtain ⟨bound, rfl⟩ := List.getElem?_eq_some_iff.mp found
  exact List.countP_set bound

theorem counted_stable : Stable Counted := by
  refine ⟨fun _ _ _ counted => counted, fun {chunks} data isLast counted => ?_⟩
  unfold enqueueChunk
  split
  · exact counted
  · rename_i index chosen
    have free : chunks.slots[index]? = some .empty := by simpa using find?_some chosen
    exact Eq.trans counted (countP_set free (.ready _ _)).symm

theorem forgetInflight_counted (callisId : CallisId) (slots : List OutboundSlot)
    (account : HashMap PeerMessageId Nat × Nat) (others : Nat)
    (counted : account.2 = others + slots.countP isInFlight) :
    (slots.foldl (forgetInflight callisId) account).2 =
      others + (slots.map (replay callisId)).countP isInFlight := by
  induction slots generalizing account others with
  | nil => exact counted
  | cons slot rest ih =>
    rw [foldl_cons, map_cons, countP_cons]
    rw [countP_cons] at counted
    cases slot with
    | inFlight chunk peerMsgId holder seq =>
      simp only [forgetInflight, replay]
      simp only [isInFlight, if_true] at counted
      split
      · exact ih _ others (by simp only; omega)
      · rw [ih account (others + 1) (by omega)]
        simp only [isInFlight, if_true]
        omega
    | writing chunk peerMsgId holder seq =>
      refine (ih account others counted).trans ?_
      rw [replay]
      split <;> rfl
    | _ => exact ih account others counted

/-- What a completion does, in a table whose index points to slots. -/
theorem noteCompletion_cases (indexed : chunks.Indexed) (peerMsgId : PeerMessageId)
    (completion : ChunkCompletion) :
    (chunks.ackMap.lookup peerMsgId = none ∧
      (chunks.noteCompletion peerMsgId completion).1 = chunks) ∨
    (∃ id, chunks.ackMap.lookup peerMsgId = some id ∧ chunks.chunkIndex.lookup id = none ∧
      (chunks.noteCompletion peerMsgId completion).1 =
        { chunks with ackMap := chunks.ackMap.erase peerMsgId }) ∨
    ∃ id index slot, chunks.ackMap.lookup peerMsgId = some id ∧
      chunks.chunkIndex.lookup id = some index ∧ chunks.slots[index]? = some slot ∧
      (chunks.noteCompletion peerMsgId completion).1 =
        { chunks with
          ackMap := chunks.ackMap.erase peerMsgId
          chunkIndex := chunks.chunkIndex.erase id
          inflight := chunks.inflight - (if slot.isInFlight then 1 else 0)
          slots := chunks.slots.set index .empty } := by
  unfold noteCompletion
  cases entry : chunks.ackMap.lookup peerMsgId with
  | none => exact .inl ⟨rfl, rfl⟩
  | some id =>
    cases there : chunks.chunkIndex.lookup id with
    | none => exact .inr (.inl ⟨id, rfl, there, by simp only [there]⟩)
    | some index =>
      obtain ⟨_, holds, _⟩ := indexed id index there
      obtain ⟨slot, found, _⟩ := bind_eq_some_iff.mp holds
      refine .inr (.inr ⟨id, index, slot, rfl, there, found, ?_⟩)
      simp only [there, found]
      cases slot <;> rfl

end OutboundChunks

inductive ChunkOp where
  | push (data : Bytes)
  | finalize
  | lease (callisId : CallisId) (peerMsgId : PeerMessageId)
  | markInflight (lease : ChunkWriteLease)
  | loseCallis (callisId : CallisId)
  | complete (peerMsgId : PeerMessageId) (completion : ChunkCompletion)
deriving DecidableEq, Repr

structure ChunkRun where
  chunks : OutboundChunks
  accepted : Bytes
  created : List Chunk
  leases : List ChunkWriteLease
  finalized : Bool

namespace ChunkRun

def start (size : RingSize) : ChunkRun := ⟨.new size, [], [], [], false⟩

def apply (run : ChunkRun) : ChunkOp → ChunkRun
  | .push data =>
    if run.finalized then run
    else
      let (chunks, taken, _) := run.chunks.pushAvailable data
      { run with
        chunks := chunks
        accepted := run.accepted ++ data.take taken
        created := run.created ++ run.chunks.arrivals chunks }
  | .finalize =>
    let (chunks, decision) := run.chunks.finalize
    { run with
      chunks := chunks
      created := run.created ++ run.chunks.arrivals chunks
      finalized := run.finalized || decision ≠ .waitForCapacity }
  | .lease callisId peerMsgId =>
    match run.chunks.leaseNextChunkForWrite callisId peerMsgId with
    | none => run
    | some (lease, chunks) => { run with chunks := chunks, leases := run.leases ++ [lease] }
  | .markInflight lease => { run with chunks := (run.chunks.markInflight lease).1 }
  | .loseCallis callisId => { run with chunks := (run.chunks.markCallisReplayReady callisId).1 }
  | .complete peerMsgId completion =>
    { run with chunks := (run.chunks.noteCompletion peerMsgId completion).1 }

def of (size : RingSize) (ops : List ChunkOp) : ChunkRun := ops.foldl apply (start size)

/-- Every lease has a message id of its own. -/
def Distinct (run : ChunkRun) : Prop := (run.leases.map ChunkWriteLease.peerMsgId).Nodup

/-- An attempt under way is the last lease of its chunk. -/
def Current (run : ChunkRun) : Prop :=
  ∀ (index : Nat) (slot : OutboundSlot) lease, run.chunks.slots[index]? = some slot →
    slot.attempt? = some lease →
    ∃ earlier later, run.leases = earlier ++ lease :: later ∧
      ∀ other ∈ later, other.chunkId ≠ lease.chunkId

/-- What holds as long as the ids of the chunks are distinct. -/
structure Exact (run : ChunkRun) : Prop where
  sole : run.chunks.Sole
  current : run.Current
  acked : run.Distinct → run.chunks.Acked

structure Inv (run : ChunkRun) (size : RingSize) (created : List Chunk) : Prop where
  sized : run.chunks.size = size
  assembled : run.chunks.Assembled created run.accepted
  unsealed : run.finalized = false → run.chunks.Unsealed created
  sealed : run.finalized = true → run.chunks.Sealed created
  fits : run.chunks.Fits size.chunkSize
  shaped : ∀ chunk ∈ created, chunk.Shaped size.chunkSize
  tracked : run.chunks.Tracked (fun _ => True) created
  leased : ∀ lease ∈ run.leases, lease.toChunk ∈ created
  counted : size.windowSize ≤ u64Max → run.chunks.Counted
  exact : run.chunks.nextChunkId < u64Max → run.created = created ∧ run.Exact

section Steps

variable {run next : ChunkRun} {size : RingSize} {created new : List Chunk}
variable {callisId : CallisId} {peerMsgId : PeerMessageId} {chunks : OutboundChunks}
variable (exact : run.Exact)

include exact

theorem Exact.attempted {Settled : Chunk → Prop} (tracked : run.chunks.Tracked Settled created) :
    run.chunks.Attempted := by
  rcases tracked.accounted with ⟨index, chunk, found, lost⟩ | ⟨attempted, _⟩
  · exact absurd (exact.sole index chunk found) lost
  · exact attempted

theorem Exact.unique (distinct : run.Distinct) {index other : Nat} {slot another : OutboundSlot}
    {first second : ChunkWriteLease} (found : run.chunks.slots[index]? = some slot)
    (attempted : slot.attempt? = some first) (isOther : run.chunks.slots[other]? = some another)
    (also : another.attempt? = some second) (same : first.peerMsgId = second.peerMsgId) :
    index = other := by
  have listed {place : Nat} {held : OutboundSlot} {lease : ChunkWriteLease}
      (isSlot : run.chunks.slots[place]? = some held) (isLease : held.attempt? = some lease) :
      lease ∈ run.leases := by
    obtain ⟨_, _, leases, _⟩ := exact.current place held lease isSlot isLease
    rw [leases]
    exact mem_append_right _ mem_cons_self
  obtain rfl := inj_on_of_nodup_map distinct (listed found attempted) (listed isOther also) same
  exact exact.sole.unique (chunkAt_of_attempt? found attempted)
    (chunkAt_of_attempt? isOther also) rfl

theorem Exact.enqueued (enqueued : run.chunks.Enqueued new next.chunks)
    (held : ∀ slot ∈ run.chunks.slots, ∀ chunk, slot.chunk? = some chunk → chunk ∈ created)
    (distinct : ((created ++ new).map Chunk.chunkId).Nodup) (leases : next.leases = run.leases) :
    next.Exact := by
  refine ⟨enqueued.sole held distinct exact.sole, ?_, ?_⟩
  · intro index slot lease found attempted
    rw [leases]
    rcases enqueued.slot_cases found with old | ⟨_, _, rfl⟩
    · exact exact.current index slot lease old attempted
    · cases attempted
  · intro distinct index chunk peerMsgId callisId seq found
    rw [enqueued.ackMap_eq]
    rw [Distinct, leases] at distinct
    rcases enqueued.slot_cases found with old | ⟨_, _, isReady⟩
    · exact exact.acked distinct index chunk peerMsgId callisId seq old
    · cases isReady

theorem Exact.lease {lease : ChunkWriteLease}
    (leased : run.chunks.leaseNextChunkForWrite callisId peerMsgId = some (lease, chunks)) :
    { run with chunks := chunks, leases := run.leases ++ [lease] }.Exact := by
  obtain ⟨_, leased, _⟩ := leaseNextChunkForWrite_cases leased
  obtain ⟨⟨index, _, _, found, offered, isLease, rfl⟩, _⟩ :=
    leaseMatching_eq_some leased
  have holds := dispatchable_chunk? offered
  refine ⟨exact.sole.pass found rfl holds rfl, fun other held another isHeld attempted => ?_,
    fun distinct other chunk current holder number flying => ?_⟩
  · rcases Slots.of_getElem?_set isHeld with ⟨_, rfl⟩ | ⟨same, wasHeld⟩
    · cases attempted
      refine ⟨run.leases, [], ?_, by simp⟩
      rw [isLease]
    · obtain ⟨earlier, later, leases, last⟩ := exact.current other held another wasHeld attempted
      refine ⟨earlier, later ++ [lease], by rw [leases]; simp, fun more listed => ?_⟩
      rcases mem_append.mp listed with old | isNew
      · exact last more old
      · obtain rfl := mem_singleton.mp isNew
        intro sameId
        exact same (exact.sole.unique ((chunkAt_of_slot found).trans holds)
          (chunkAt_of_attempt? wasHeld attempted) sameId)
  · rcases Slots.of_getElem?_set flying with ⟨_, isNew⟩ | ⟨_, flying⟩
    · cases isNew
    · refine exact.acked ?_ other chunk current holder number flying
      rw [Distinct, map_append] at distinct
      exact (nodup_append.mp distinct).1

theorem Exact.passes (sole : chunks.Sole)
    (attempts : ∀ (index : Nat) (slot : OutboundSlot) lease, chunks.slots[index]? = some slot →
      slot.attempt? = some lease →
      ∃ old : OutboundSlot, run.chunks.slots[index]? = some old ∧ old.attempt? = some lease)
    (acked : run.Distinct → chunks.Acked) : { run with chunks := chunks }.Exact := by
  refine ⟨sole, fun index slot lease found attempted => ?_, acked⟩
  obtain ⟨old, wasFound, wasAttempted⟩ := attempts index slot lease found attempted
  exact exact.current index old lease wasFound wasAttempted

theorem Exact.markInflight (lease : ChunkWriteLease) :
    { run with chunks := (run.chunks.markInflight lease).1 }.Exact := by
  rcases run.chunks.markInflight_cases lease with unchanged | ⟨index, _, _, found, id, marked⟩
  · rw [unchanged]
    exact exact
  · rw [marked]
    refine exact.passes (exact.sole.pass found rfl rfl rfl)
      (fun other held another isHeld attempted => ?_)
      (fun distinct other held current holder number flying => ?_)
    · rcases Slots.of_getElem?_set isHeld with ⟨rfl, rfl⟩ | ⟨_, isHeld⟩
      · exact ⟨_, found, attempted⟩
      · exact ⟨held, isHeld, attempted⟩
    · rw [HashMap.lookup_insert_eq]
      rcases Slots.of_getElem?_set flying with ⟨_, isNew⟩ | ⟨same, flying⟩
      · cases isNew
        rw [if_pos rfl, id]
      · rw [if_neg]
        · exact exact.acked distinct other held current holder number flying
        · rintro rfl
          exact same (exact.unique distinct found rfl flying rfl rfl)

omit exact

theorem forgetInflight_kept {slots : List OutboundSlot}
    {account : HashMap PeerMessageId Nat × Nat}
    (elsewhere : ∀ chunk seq, .inFlight chunk peerMsgId callisId seq ∉ slots) :
    (slots.foldl (forgetInflight callisId) account).1.lookup peerMsgId =
      account.1.lookup peerMsgId := by
  induction slots generalizing account with
  | nil => rfl
  | cons slot rest ih =>
    rw [foldl_cons, ih fun chunk seq listed =>
      elsewhere chunk seq (mem_cons_of_mem _ listed)]
    unfold forgetInflight
    split
    · split
      · rename_i chunk current holder seq same
        rw [HashMap.lookup_erase_eq, if_neg]
        rintro rfl
        exact elsewhere chunk seq (same ▸ mem_cons_self)
      · rfl
    · rfl

theorem Exact.loseCallis (exact : run.Exact) (callisId : CallisId) :
    { run with chunks := (run.chunks.markCallisReplayReady callisId).1 }.Exact := by
  have slot_of : ∀ (index : Nat) slot,
      (run.chunks.markCallisReplayReady callisId).1.slots[index]? = some slot →
      ∃ old, run.chunks.slots[index]? = some old ∧ old.replay callisId = slot := by
    intro index slot found
    rw [markCallisReplayReady, getElem?_map] at found
    exact map_eq_some_iff.mp found
  refine exact.passes (fun index chunk here => ?_) (fun index slot lease found attempted => ?_)
    (fun distinct index chunk peerMsgId holder seq found => ?_)
  · obtain ⟨slot, found, holds⟩ := bind_eq_some_iff.mp here
    obtain ⟨old, wasFound, rfl⟩ := slot_of index slot found
    refine exact.sole index chunk ((chunkAt_of_slot wasFound).trans ?_)
    rw [← old.replay_chunk? callisId]
    exact holds
  · obtain ⟨old, wasFound, rfl⟩ := slot_of index slot found
    exact ⟨old, wasFound, attempt?_of_replay attempted⟩
  · obtain ⟨old, wasFound, replayed⟩ := slot_of index _ found
    obtain ⟨rfl, apart⟩ : old = .inFlight chunk peerMsgId holder seq ∧ holder ≠ callisId := by
      unfold replay at replayed
      split at replayed
      · split_ifs at replayed
      · split_ifs at replayed with same
        cases replayed
        exact ⟨rfl, same⟩
      · rename_i notWriting notInFlight
        exact absurd replayed (notInFlight _ _ _ _)
    have kept := exact.acked distinct index chunk peerMsgId holder seq wasFound
    refine (forgetInflight_kept fun other number listed => ?_).trans kept
    -- Another slot in flight under the same id would be this one.
    obtain ⟨_, isOther⟩ := mem_iff_getElem?.mp listed
    obtain rfl := exact.unique distinct wasFound rfl isOther rfl rfl
    cases wasFound.symm.trans isOther
    exact apart rfl

theorem Exact.complete (exact : run.Exact) {Settled : Chunk → Prop}
    (tracked : run.chunks.Tracked Settled created) (peerMsgId : PeerMessageId)
    (completion : ChunkCompletion) :
    { run with chunks := (run.chunks.noteCompletion peerMsgId completion).1 }.Exact := by
  rcases noteCompletion_cases tracked.indexed peerMsgId completion with
    ⟨_, unchanged⟩ | ⟨id, entry, absent, _⟩ | ⟨id, index, _, entry, there, found, emptied⟩
  · rw [unchanged]
    exact exact
  · obtain ⟨_, _, _, _, there, _⟩ := exact.attempted tracked peerMsgId id entry
    cases absent.symm.trans there
  · obtain ⟨same, _, _, _, isThere, flying⟩ :=
      exact.attempted tracked peerMsgId id entry
    cases there.symm.trans isThere
    obtain ⟨_, here, named⟩ := tracked.indexed id index there
    rw [emptied]
    refine exact.passes (fun other kept isKept => ?_)
      (fun other kept another isKept attempted => ?_)
      (fun distinct other kept current callisId number isKept => ?_)
    · rw [chunkAt_set found rfl] at isKept
      split at isKept
      · cases isKept
      · rename_i apart
        rw [HashMap.lookup_erase_eq, if_neg]
        · exact exact.sole other kept isKept
        · intro sameId
          exact apart (exact.sole.unique isKept here (sameId.trans named.symm))
    · rcases Slots.of_getElem?_set isKept with ⟨_, rfl⟩ | ⟨_, isKept⟩
      · cases attempted
      · exact ⟨kept, isKept, attempted⟩
    · rcases Slots.of_getElem?_set isKept with ⟨_, isNew⟩ | ⟨same, wasKept⟩
      · cases isNew
      · rw [HashMap.lookup_erase_eq, if_neg]
        · exact exact.acked distinct other kept current callisId number wasKept
        · rintro rfl
          exact same (exact.unique distinct flying rfl wasKept rfl rfl)

/-! ### One operation keeps the invariant -/

section Inv

variable (inv : run.Inv size created)

include inv

theorem Inv.enqueued
    (enqueued : run.chunks.Enqueued new next.chunks)
    (assembled : next.chunks.Assembled (created ++ new) next.accepted)
    (unsealed : next.finalized = false → next.chunks.Unsealed (created ++ new))
    (sealed : next.finalized = true → next.chunks.Sealed (created ++ new))
    (stable : ∀ Property, OutboundChunks.Stable Property → Property run.chunks →
      Property next.chunks)
    (fits : next.chunks.Fits size.chunkSize) (leases : next.leases = run.leases)
    (recorded : next.created = run.created ++ run.chunks.arrivals next.chunks) :
    next.Inv size (created ++ new) := by
  refine ⟨stable _ (size_stable size) inv.sized, assembled, unsealed, sealed, fits,
    fun chunk listed => ?_, inv.tracked.enqueued enqueued, fun lease listed => ?_,
    fun small => stable _ counted_stable (inv.counted small), fun small => ?_⟩
  · rcases mem_append.mp listed with old | isNew
    · exact inv.shaped chunk old
    · obtain ⟨_, found⟩ := enqueued.placed chunk isNew
      obtain ⟨slot, isSlot, holds⟩ := bind_eq_some_iff.mp found
      exact fits.held slot (mem_of_getElem? isSlot) chunk holds
  · exact mem_append_left _ (inv.leased lease (leases ▸ listed))
  · have counted := inv.assembled.counted
    obtain ⟨length, ids⟩ := assembled.chunkIds small
    rw [length_append] at length
    obtain ⟨same, exact⟩ := inv.exact (by omega)
    have next_exact := exact.enqueued enqueued inv.assembled.held (ids ▸ nodup_range) leases
    refine ⟨?_, next_exact⟩
    rw [recorded, same, enqueued.arrivals_eq next_exact.sole inv.assembled.toMaterialised
      assembled.toMaterialised small]

theorem Inv.handled
    (handled : run.chunks.Handled next.chunks) (accepted : next.accepted = run.accepted)
    (finalized : next.finalized = run.finalized) (recorded : next.created = run.created)
    (tracked : next.chunks.Tracked (fun _ => True) created)
    (leased : ∀ lease ∈ next.leases, lease.toChunk ∈ created)
    (counted : size.windowSize ≤ u64Max → next.chunks.Counted)
    (exact : run.Exact → next.Exact) : next.Inv size created where
  sized := handled.size.trans inv.sized
  assembled := accepted ▸ inv.assembled.handled handled
  unsealed early := (inv.unsealed (finalized ▸ early)).handled handled
  sealed late := (inv.sealed (finalized ▸ late)).handled handled
  fits := inv.fits.handled handled
  shaped := inv.shaped
  tracked := tracked
  leased := leased
  counted := counted
  exact small := by
    obtain ⟨same, before⟩ := inv.exact (handled.nextChunkId ▸ small)
    exact ⟨recorded.trans same, exact before⟩

theorem Inv.push (data : Bytes) :
    ∃ new, (run.apply (.push data)).Inv size (created ++ new) := by
  by_cases finalized : run.finalized = true
  · simp only [apply, if_pos finalized]
    exact ⟨[], by simpa using inv⟩
  · have early := Bool.eq_false_iff.mpr finalized
    obtain ⟨new, enqueued, assembled, unsealed⟩ :=
      inv.assembled.pushAvailable (inv.unsealed early) data
    simp only [apply, if_neg finalized]
    refine ⟨new, inv.enqueued enqueued assembled (fun _ => unsealed) ?_ ?_
      (inv.fits.pushAvailable data) rfl rfl⟩
    · intro late
      exact absurd late finalized
    · intro Property stable holds
      exact stable.pushAvailable holds data

theorem Inv.finalize_sealed (finalized : run.finalized = true) :
    run.chunks.finalize.1 = run.chunks := by
  obtain ⟨noPending, noPartial, _, _, isCreated, _⟩ := inv.sealed finalized
  have any : run.chunks.createdAny = true := by
    by_contra never
    have first := inv.fits.begun (Bool.eq_false_iff.mpr never)
    have counted := inv.assembled.counted
    rw [isCreated, length_append, length_singleton] at counted
    have positive : 0 < u64Max := by decide
    omega
  unfold finalize
  split
  · simp [materialiseLast, noPending, noPartial, any]
  · rfl

theorem Inv.finalize :
    ∃ new, (run.apply .finalize).Inv size (created ++ new) := by
  cases finalized : run.finalized with
  | true =>
    have same := inv.finalize_sealed finalized
    have unchanged : run.apply .finalize = run := by
      simp only [apply, same, arrivals_self, finalized, Bool.true_or,
        append_nil]
      rw [← finalized]
    exact ⟨[], by rw [unchanged, append_nil]; exact inv⟩
  | false =>
    rcases inv.assembled.finalize (inv.unsealed finalized) with waits |
      ⟨_, new, done, enqueued, assembled, sealed⟩
    · have unchanged : run.apply .finalize = run := by
        simp only [apply, waits, arrivals_self, ne_eq, not_true_eq_false,
          decide_false, Bool.or_false, append_nil]
      exact ⟨[], by rw [unchanged, append_nil]; exact inv⟩
    · have fits := inv.fits.finalize
      rw [done] at fits
      simp only [apply, done]
      refine ⟨new, inv.enqueued enqueued assembled ?_ (fun _ => sealed) ?_ fits rfl rfl⟩
      · intro early
        simp at early
      · intro Property stable holds
        have finalized := stable.finalize holds
        rw [done] at finalized
        exact finalized

theorem Inv.lease (callisId : CallisId) (peerMsgId : PeerMessageId) :
    (run.apply (.lease callisId peerMsgId)).Inv size created := by
  simp only [apply]
  cases leased : run.chunks.leaseNextChunkForWrite callisId peerMsgId with
  | none => exact inv
  | some given =>
    obtain ⟨lease, chunks⟩ := given
    obtain ⟨index, slot, found, holds, waiting, isNext⟩ :=
      leaseNextChunkForWrite_eq_some leased
    refine inv.handled (leaseNextChunkForWrite_handled leased) rfl rfl rfl
      (inv.tracked.lease leased) (fun other listed => ?_) (fun small => ?_) (·.lease leased)
    · rcases mem_append.mp listed with old | isNew
      · exact inv.leased other old
      · obtain rfl := mem_singleton.mp isNew
        exact inv.assembled.held slot (mem_of_getElem? found) _ holds
    · have idle : slot.isInFlight = false := by
        cases slot with
        | inFlight chunk p c seq => exact absurd rfl (waiting chunk p c seq)
        | _ => rfl
      rw [isNext, OutboundChunks.Counted, countP_set found, idle]
      exact inv.counted small

theorem Inv.markInflight (lease : ChunkWriteLease) :
    (run.apply (.markInflight lease)).Inv size created := by
  refine inv.handled (run.chunks.markInflight_handled lease) rfl rfl rfl
    (inv.tracked.markInflight lease) inv.leased (fun small => ?_) (·.markInflight lease)
  have counted := inv.counted small
  rcases run.chunks.markInflight_cases lease with unchanged | ⟨index, chunk, _, found, _, marked⟩
  · simpa only [apply, unchanged] using counted
  · have after := countP_set found
      (.inFlight chunk lease.peerMsgId lease.callisId lease.slotSeq)
    have room := @countP_le_length _ isInFlight (run.chunks.slots.set index
      (.inFlight chunk lease.peerMsgId lease.callisId lease.slotSeq))
    rw [length_set, inv.assembled.slots_length, inv.sized] at room
    simp only [isInFlight, Bool.false_eq_true, if_false, if_true] at after
    simp only [apply, marked, OutboundChunks.Counted, saturatingAdd]
    rw [OutboundChunks.Counted] at counted
    omega

theorem Inv.loseCallis (callisId : CallisId) :
    (run.apply (.loseCallis callisId)).Inv size created := by
  refine inv.handled (run.chunks.markCallisReplayReady_handled callisId) rfl rfl rfl
    (inv.tracked.loseCallis callisId) inv.leased (fun small => ?_) (·.loseCallis callisId)
  have counted := forgetInflight_counted callisId run.chunks.slots
    (run.chunks.ackMap, run.chunks.inflight) 0 ((inv.counted small).trans (Nat.zero_add _).symm)
  rw [Nat.zero_add] at counted
  exact counted

theorem Inv.complete (peerMsgId : PeerMessageId)
    (completion : ChunkCompletion) :
    (run.apply (.complete peerMsgId completion)).Inv size created := by
  refine inv.handled (run.chunks.noteCompletion_handled peerMsgId completion) rfl rfl rfl
    ((inv.tracked.noteCompletion peerMsgId completion).mono fun _ _ => trivial) inv.leased
    (fun small => ?_) (·.complete inv.tracked peerMsgId completion)
  have counted := inv.counted small
  rcases noteCompletion_cases inv.tracked.indexed peerMsgId completion with
    ⟨_, unchanged⟩ | ⟨_, _, _, unchanged⟩ | ⟨_, _, _, _, _, found, emptied⟩
  · simpa only [apply, unchanged] using counted
  · simpa only [apply, unchanged, OutboundChunks.Counted] using counted
  · simp only [apply, emptied, OutboundChunks.Counted]
    rw [countP_set found, ← show run.chunks.inflight = _ from counted]
    rfl

theorem Inv.apply (op : ChunkOp) :
    ∃ new, (run.apply op).Inv size (created ++ new) := by
  have same (kept : (run.apply op).Inv size created) :
      ∃ new, (run.apply op).Inv size (created ++ new) := ⟨[], by simpa using kept⟩
  cases op with
  | push data => exact inv.push data
  | finalize => exact inv.finalize
  | lease callisId peerMsgId => exact same (inv.lease callisId peerMsgId)
  | markInflight lease => exact same (inv.markInflight lease)
  | loseCallis callisId => exact same (inv.loseCallis callisId)
  | complete peerMsgId completion => exact same (inv.complete peerMsgId completion)

end Inv

theorem Inv.start (size : RingSize) : (start size).Inv size [] := by
  have empty {index : Nat} {slot : OutboundSlot}
      (found : (new size).slots[index]? = some slot) : slot = .empty :=
    eq_of_mem_replicate (mem_of_getElem? found)
  refine ⟨rfl, .start size, fun _ => .start size, by simp [ChunkRun.start], .start size,
    by simp, .start size _, by simp [ChunkRun.start], fun _ => ?_,
    fun _ => ⟨rfl, fun index chunk found => ?_, fun index slot lease found some => ?_,
      fun _ index chunk peerMsgId callisId seq found => ?_⟩⟩
  · simp [OutboundChunks.Counted, ChunkRun.start, new, countP_replicate,
      isInFlight]
  · obtain ⟨slot, isSlot, holds⟩ := bind_eq_some_iff.mp found
    cases empty isSlot
    cases holds
  · cases empty found
    cases some
  · cases empty found

/-- Every run keeps the invariant. -/
theorem inv_of (size : RingSize) (ops : List ChunkOp) :
    ∃ created, (ChunkRun.of size ops).Inv size created := by
  have run : ∀ (ops : List ChunkOp) (run : ChunkRun) created, run.Inv size created →
      ∃ created, (ops.foldl ChunkRun.apply run).Inv size created := by
    intro ops
    induction ops with
    | nil => exact fun _ created inv => ⟨created, inv⟩
    | cons op rest ih =>
      intro run created inv
      obtain ⟨_, next⟩ := inv.apply op
      exact ih (run.apply op) _ next
  exact run ops (ChunkRun.start size) [] (.start size)

end Steps

/-- For every sequence of operations, with a window that a `usize` can hold: the window and the
partial buffer are respected, a chunk that waits finds an empty slot, and the attempts in flight are
counted.  Below the saturation of the chunk counter no byte is lost or moved, every chunk but the
last is full, a successful `finalize` flags one chunk, and the index of the slots is exact; so is
the acknowledgement map if no message id is used for two leases. -/
theorem chunking_exact (size : RingSize) (usize : size.windowSize ≤ u64Max) (ops : List ChunkOp) :
    let run := ChunkRun.of size ops
    run.chunks.liveChunkCount + run.chunks.pendingCount ≤ size.windowSize ∧
    run.chunks.writeBuf.length ≤ size.chunkSize ∧
    (run.chunks.pendingFull.isSome ∨ run.chunks.hasWindowCapacityFor 1 →
      ∃ index, run.chunks.nextEmptySlot = some index ∧ run.chunks.slots[index]? = some .empty) ∧
    run.chunks.inflight = run.chunks.slots.countP OutboundSlot.isInFlight ∧
    (run.chunks.nextChunkId < u64Max →
      run.created.flatMap Chunk.data ++ (run.chunks.pendingFull.getD [] ++ run.chunks.writeBuf) =
        run.accepted ∧
      run.created.map Chunk.chunkId = List.range run.created.length ∧
      (∀ chunk ∈ run.created, chunk.isLast = false → chunk.data.length = size.chunkSize) ∧
      (run.finalized = false → ∀ chunk ∈ run.created, chunk.isLast = false) ∧
      (run.finalized = true → ∃ body last, run.created = body ++ [last] ∧ last.isLast = true ∧
        (∀ chunk ∈ body, chunk.isLast = false) ∧ (last.data = [] → run.accepted = [])) ∧
      (∀ id index, run.chunks.chunkIndex.lookup id = some index ↔
        ∃ chunk, run.chunks.chunkAt index = some chunk ∧ chunk.chunkId = id) ∧
      (run.Distinct → ∀ peerMsgId id, run.chunks.ackMap.lookup peerMsgId = some id ↔
        ∃ (index : Nat) (chunk : Chunk) (callisId : CallisId) (seq : Nat),
          run.chunks.slots[index]? = some (.inFlight chunk peerMsgId callisId seq) ∧
          chunk.chunkId = id)) := by
  intro run
  obtain ⟨created, inv⟩ := inv_of size ops
  have window := inv.assembled.window
  refine ⟨?_, ?_, fun waits => ?_, inv.counted usize, fun small => ?_⟩
  · rw [← inv.sized]
    exact window
  · rw [← inv.sized]
    exact inv.assembled.buffered
  · apply nextEmptySlot_of_room inv.assembled.slots_length
    rcases waits with pending | room
    · rw [pendingCount, if_pos pending] at window
      exact window
    · have room := of_decide_eq_true room
      exact Nat.lt_of_lt_of_le (Nat.lt_succ_of_le (Nat.le_add_right _ _)) room
  · obtain ⟨same, exact⟩ := inv.exact small
    rw [show run.created = created from same]
    obtain ⟨_, ids⟩ := inv.assembled.chunkIds small
    refine ⟨inv.assembled.bytes, ids, fun chunk listed => (inv.shaped chunk listed).2.1,
      fun early => (inv.unsealed early).unflagged, fun late => ?_, fun id index => ⟨?_, ?_⟩,
      fun distinct peerMsgId id => ⟨fun entry => ?_, ?_⟩⟩
    · obtain ⟨noPending, noPartial, body, last, isCreated, flagged, unflagged⟩ := inv.sealed late
      refine ⟨body, last, isCreated, flagged, unflagged, fun empty => ?_⟩
      -- An empty chunk is the first one, so it is the only one.
      have first := (inv.shaped last (by simp [isCreated])).2.2 empty
      have position := inv.assembled.numbered body.length last (by simp [isCreated])
      have positive : 0 < u64Max := by decide
      have alone : body = [] := length_eq_zero_iff.mp (by omega)
      have bytes := inv.assembled.bytes
      rw [noPending, noPartial, isCreated, alone] at bytes
      simpa [empty] using bytes.symm
    · exact inv.tracked.indexed id index
    · rintro ⟨chunk, found, rfl⟩
      exact exact.sole index chunk found
    · obtain ⟨index, chunk, callisId, seq, there, flying⟩ :=
        exact.attempted inv.tracked peerMsgId id entry
      obtain ⟨_, here, named⟩ := inv.tracked.indexed id index there
      cases (chunkAt_of_slot flying).symm.trans here
      exact ⟨index, chunk, callisId, seq, flying, named⟩
    · rintro ⟨index, chunk, callisId, seq, flying, rfl⟩
      exact exact.acked distinct index chunk peerMsgId callisId seq flying

def tripleWindow : RingSize := ⟨1, 3, Nat.one_pos, Nat.succ_pos 2⟩

def writeTwo (first second : PeerMessageId) : List ChunkOp :=
  [.push [1, 2, 3], .finalize, .lease 1 first, .lease 2 second,
    .markInflight ⟨⟨0, [1], false⟩, first, 1, 1⟩, .markInflight ⟨⟨1, [2], false⟩, second, 2, 1⟩]

theorem chunking_exact_writeTwo :
    (∃ body last, (ChunkRun.of tripleWindow (writeTwo 5 6)).created = body ++ [last] ∧
      last.isLast = true) ∧
    ∃ (index : Nat) (chunk : Chunk) (callisId : CallisId) (seq : Nat),
      (ChunkRun.of tripleWindow (writeTwo 5 6)).chunks.slots[index]? =
        some (.inFlight chunk 6 callisId seq) ∧ chunk.chunkId = 1 := by
  obtain ⟨_, _, _, _, exact⟩ := chunking_exact tripleWindow (by decide) (writeTwo 5 6)
  obtain ⟨_, _, _, _, sealed, _, acked⟩ := exact (by decide)
  obtain ⟨body, last, created, flagged, _⟩ := sealed rfl
  exact ⟨⟨body, last, created, flagged⟩, (acked (by rw [Distinct]; decide) 6 1).mp rfl⟩

/-- With one message id for two leases, two chunks are in flight and the map has one entry. -/
theorem reused_message_id_loses_entry :
    (ChunkRun.of tripleWindow (writeTwo 5 5)).chunks.slots.countP OutboundSlot.isInFlight = 2 ∧
      (ChunkRun.of tripleWindow (writeTwo 5 5)).chunks.ackMap.keys.length = 1 := by
  decide

end ChunkRun

end AureliaPeering.Ring
