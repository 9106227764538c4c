import AureliaPeering.Ring.InboundRing

/-!
What the inbound ring preserves, whatever chunks are sent to it.

`taken` lists the chunks handed to the reader.  The ring never stores the largest `u64` as an id,
so its counters do not saturate.
-/

namespace AureliaPeering.Ring

open Collections List

theorem saturatingAdd_le (left right : Nat) : saturatingAdd left right ≤ u64Max :=
  Nat.min_le_right _ _

theorem saturatingAdd_one {value : Nat} (small : value < u64Max) :
    saturatingAdd value 1 = value + 1 :=
  Nat.min_eq_left small

namespace InboundRingBuffer

theorem countP_le_eq (ids : List Nat) (id : Nat) :
    ids.countP (id ≤ ·) = ids.countP (id + 1 ≤ ·) + ids.count id := by
  induction ids with
  | nil => rfl
  | cons head rest ih =>
    simp only [countP_cons, count_cons, ih, decide_eq_true_eq, beq_iff_eq]
    split_ifs <;> omega

/-- The loop over `next_expected` ends at an id that is not stored: each turn leaves one stored id
behind. -/
theorem advance_stops {received : HashMap Nat Bytes}
    (small : ∀ id, (received.lookup id).isSome → id < u64Max) (fuel nextExpected : Nat)
    (enough : received.keys.countP (nextExpected ≤ ·) < fuel) :
    received.lookup (advance received fuel nextExpected) = none := by
  induction fuel generalizing nextExpected with
  | zero => exact absurd enough (Nat.not_lt_zero _)
  | succ fuel ih =>
    by_cases present : (received.lookup nextExpected).isSome
    · rw [advance, if_pos present, saturatingAdd_one (small nextExpected present)]
      have listed : nextExpected ∈ received.keys :=
        AList.mem_keys.mpr (AList.lookup_isSome.mp present)
      have counted := count_pos_iff.mpr listed
      have split := countP_le_eq received.keys nextExpected
      exact ih (nextExpected + 1) (by omega)
    · rw [advance, if_neg present]
      simpa using present

/-- What is stored or was taken, was sent; the chunks taken are numbered by position. -/
structure Reassembled (Sent : Chunk → Prop) (ring : InboundRingBuffer) (taken : List Chunk) :
    Prop where
  sent : ∀ chunk ∈ taken, Sent chunk
  numbered : ∀ (index : Nat) (chunk : Chunk), taken[index]? = some chunk → chunk.chunkId = index
  counted : ring.nextDeliver = taken.length
  bounded : ring.nextDeliver ≤ u64Max
  stored : ∀ id data, ring.received.lookup id = some data →
    ring.nextDeliver ≤ id ∧ id < u64Max ∧ ∃ isLast, Sent ⟨id, data, isLast⟩
  last : ∀ id, ring.lastChunkId = some id →
    (∃ data, ring.received.lookup id = some data ∧ Sent ⟨id, data, true⟩) ∨
    ∃ chunk, taken[id]? = some chunk ∧ chunk.isLast = true

section Reassembled

variable {Sent More : Chunk → Prop} {ring next : InboundRingBuffer} {taken : List Chunk}
variable {chunk : Chunk} {data : Bytes}

theorem Reassembled.start (Sent : Chunk → Prop) (size : RingSize) :
    (new size).Reassembled Sent [] :=
  ⟨by simp, by simp, rfl, Nat.zero_le _, by simp [new], by simp [new]⟩

theorem Reassembled.mono (inv : ring.Reassembled Sent taken)
    (more : ∀ chunk, Sent chunk → More chunk) : ring.Reassembled More taken := by
  refine ⟨fun chunk listed => more chunk (inv.sent chunk listed), inv.numbered, inv.counted,
    inv.bounded, ?_, ?_⟩
  · intro id data found
    obtain ⟨ahead, small, isLast, sent⟩ := inv.stored id data found
    exact ⟨ahead, small, isLast, more _ sent⟩
  · intro id flagged
    exact (inv.last id flagged).imp_left fun ⟨data, found, sent⟩ => ⟨data, found, more _ sent⟩

theorem refuse_eq_none (admitted : ring.refuse chunk = none) :
    ring.nextDeliver ≤ chunk.chunkId ∧ chunk.chunkId < u64Max ∧
      ring.received.lookup chunk.chunkId = none := by
  unfold refuse at admitted
  split_ifs at admitted with tooLong delivered beyond present full gap
  refine ⟨Nat.not_lt.mp delivered, ?_, by simpa using present⟩
  have limit := saturatingAdd_le ring.nextExpected ring.size.windowSize
  omega

/-- A chunk leaves the ring as it is, or is stored; then the last id is kept or becomes its own. -/
theorem insertChunk_cases (ring : InboundRingBuffer) (chunk : Chunk) :
    (∃ answer, ring.refuse chunk = some answer ∧ ring.insertChunk chunk = (ring, answer)) ∨
    ring.refuse chunk = none ∧ ∃ lastChunkId,
      (lastChunkId = ring.lastChunkId ∨ chunk.isLast = true ∧ lastChunkId = some chunk.chunkId) ∧
      (ring.insertChunk chunk).1 = { ring.store chunk with lastChunkId := lastChunkId } := by
  unfold insertChunk
  cases refused : ring.refuse chunk with
  | some answer => exact .inl ⟨answer, rfl, rfl⟩
  | none =>
    refine .inr ⟨rfl, ?_⟩
    dsimp only
    split_ifs with gap isLast
    · exact ⟨_, .inl rfl, rfl⟩
    · exact ⟨_, .inr ⟨isLast, rfl⟩, rfl⟩
    · exact ⟨_, .inl rfl, rfl⟩

theorem Reassembled.store (inv : ring.Reassembled Sent taken) (sent : Sent chunk)
    (admitted : ring.refuse chunk = none) : (ring.store chunk).Reassembled Sent taken := by
  obtain ⟨ahead, small, absent⟩ := refuse_eq_none admitted
  refine ⟨inv.sent, inv.numbered, inv.counted, inv.bounded, ?_, ?_⟩
  · intro id data found
    rw [InboundRingBuffer.store, HashMap.lookup_insert_eq] at found
    split at found
    · rename_i same
      subst same
      cases found
      exact ⟨ahead, small, chunk.isLast, sent⟩
    · exact inv.stored id data found
  · intro id flagged
    refine (inv.last id flagged).imp_left fun ⟨data, found, wasSent⟩ => ⟨data, ?_, wasSent⟩
    have other : id ≠ chunk.chunkId := by
      rintro rfl
      simp [absent] at found
    simpa [InboundRingBuffer.store, HashMap.lookup_insert_eq, other] using found

theorem Reassembled.insertChunk (inv : ring.Reassembled Sent taken)
    (sent : Sent chunk) : (ring.insertChunk chunk).1.Reassembled Sent taken := by
  rcases ring.insertChunk_cases chunk with ⟨_, _, unchanged⟩ | ⟨admitted, last, marked, stored⟩
  · rw [unchanged]
    exact inv
  · rw [stored]
    refine { inv.store sent admitted with last := fun id flagged => ?_ }
    rcases marked with rfl | ⟨isLast, rfl⟩
    · exact (inv.store sent admitted).last id flagged
    · cases flagged
      refine .inl ⟨chunk.data, by simp [InboundRingBuffer.store], ?_⟩
      rw [← isLast]
      exact sent

theorem takeNext_eq_some (took : ring.takeNext = some (data, next)) :
    ring.received.lookup ring.nextDeliver = some data ∧
    next = { ring with
      received := ring.received.erase ring.nextDeliver
      nextDeliver := saturatingAdd ring.nextDeliver 1
      nextExpected := max ring.nextExpected (saturatingAdd ring.nextDeliver 1) } := by
  simp only [takeNext, bind, Option.bind_eq_some_iff] at took
  obtain ⟨_, stored, result⟩ := took
  cases result
  exact ⟨stored, rfl⟩

theorem Reassembled.takeNext (inv : ring.Reassembled Sent taken)
    (took : ring.takeNext = some (data, next)) :
    ∃ chunk, chunk.data = data ∧ next.Reassembled Sent (taken ++ [chunk]) := by
  obtain ⟨found, rfl⟩ := takeNext_eq_some took
  obtain ⟨_, small, isLast, sent⟩ := inv.stored _ _ found
  -- the copy whose flag agrees with the recorded last id
  obtain ⟨flag, sent, agrees⟩ : ∃ flag, Sent ⟨ring.nextDeliver, data, flag⟩ ∧
      (ring.lastChunkId = some ring.nextDeliver → flag = true) := by
    by_cases flagged : ring.lastChunkId = some ring.nextDeliver
    · rcases inv.last _ flagged with ⟨stored, same, sent⟩ | ⟨chunk, earlier, _⟩
      · cases found.symm.trans same
        exact ⟨true, sent, fun _ => rfl⟩
      · simp [inv.counted] at earlier
    · exact ⟨isLast, sent, fun same => absurd same flagged⟩
  refine ⟨⟨ring.nextDeliver, data, flag⟩, rfl, ?_, ?_, ?_, saturatingAdd_le _ _, ?_, ?_⟩
  · intro chunk listed
    rcases mem_append.mp listed with old | new
    · exact inv.sent chunk old
    · obtain rfl := mem_singleton.mp new
      exact sent
  · intro index chunk entry
    rcases Slots.getElem?_concat_eq_some.mp entry with old | ⟨rfl, rfl⟩
    · exact inv.numbered index chunk old
    · exact inv.counted
  · rw [length_append, ← inv.counted]
    exact saturatingAdd_one small
  · intro id stored entry
    rw [HashMap.lookup_erase_eq] at entry
    split at entry
    · cases entry
    · rename_i other
      obtain ⟨_, below, wasSent⟩ := inv.stored id stored entry
      have step := saturatingAdd_one small
      exact ⟨show saturatingAdd ring.nextDeliver 1 ≤ id by omega, below, wasSent⟩
  · intro id flagged
    by_cases now : id = ring.nextDeliver
    · refine .inr ⟨_, Slots.getElem?_concat_eq_some.mpr (.inr ⟨now.trans inv.counted, rfl⟩), ?_⟩
      exact agrees (now ▸ flagged)
    · rcases inv.last id flagged with ⟨stored, entry, wasSent⟩ | ⟨chunk, earlier, isLast⟩
      · exact .inl ⟨stored, by simpa [HashMap.lookup_erase_eq, now] using entry, wasSent⟩
      · exact .inr ⟨chunk, Slots.getElem?_concat_eq_some.mpr (.inl earlier), isLast⟩

theorem Reassembled.last_taken (inv : ring.Reassembled Sent taken) (complete : ring.isComplete) :
    ∃ (last : Nat) (chunk : Chunk), taken[last]? = some chunk ∧ chunk.isLast = true := by
  unfold isComplete at complete
  split at complete
  · rename_i last flagged
    rcases inv.last last flagged with ⟨data, found, _⟩ | ⟨chunk, earlier, isLast⟩
    · have := (inv.stored last data found).1
      simp only [decide_eq_true_eq] at complete
      omega
    · exact ⟨last, chunk, earlier, isLast⟩
  · cases complete

end Reassembled

/-- Every chunk up to the last one has arrived, as `insert_chunk` tests it. -/
def holdsAll (ring : InboundRingBuffer) : Bool :=
  match ring.lastChunkId with
  | some last => decide (ring.nextExpected = saturatingAdd last 1)
  | none => false

/-- The counters agree with what is stored: the next expected chunk is missing, and neither what
was delivered nor the recorded last id is ahead of it. -/
structure Steady (ring : InboundRingBuffer) : Prop where
  small : ∀ id, (ring.received.lookup id).isSome → id < u64Max
  missing : ring.received.lookup ring.nextExpected = none
  delivered : ring.nextDeliver ≤ ring.nextExpected
  last : ∀ id, ring.lastChunkId = some id → id < ring.nextExpected

section Steady

variable {ring next : InboundRingBuffer} {chunk : Chunk}

theorem Steady.start (size : RingSize) : (new size).Steady :=
  ⟨by simp [new], by simp [new], Nat.le_refl _, by simp [new]⟩

theorem le_advance {received : HashMap Nat Bytes}
    (small : ∀ id, (received.lookup id).isSome → id < u64Max) (fuel nextExpected : Nat) :
    nextExpected ≤ advance received fuel nextExpected := by
  induction fuel generalizing nextExpected with
  | zero => exact Nat.le_refl _
  | succ fuel ih =>
    unfold advance
    split_ifs with present
    · have further := ih (saturatingAdd nextExpected 1)
      rw [saturatingAdd_one (small nextExpected present)] at further ⊢
      omega
    · exact Nat.le_refl _

theorem Steady.small_insert (steady : ring.Steady) (below : chunk.chunkId < u64Max) :
    ∀ id, ((ring.received.insert chunk.chunkId chunk.data).lookup id).isSome → id < u64Max := by
  intro id present
  rw [HashMap.lookup_insert_eq] at present
  split at present
  · rename_i same
    exact same ▸ below
  · exact steady.small id present

/-- `next_expected` only moves forward, and it moves past the chunk that was expected. -/
theorem Steady.nextExpected_store (steady : ring.Steady) (below : chunk.chunkId < u64Max) :
    ring.nextExpected ≤ (ring.store chunk).nextExpected ∧
      (chunk.chunkId ≤ ring.nextExpected → chunk.chunkId < (ring.store chunk).nextExpected) := by
  have small := steady.small_insert below
  unfold InboundRingBuffer.store
  dsimp only
  split_ifs with expected
  · have past : ring.nextExpected + 1 ≤ advance (ring.received.insert chunk.chunkId chunk.data)
        ((ring.received.insert chunk.chunkId chunk.data).entries.length + 1) ring.nextExpected := by
      rw [advance, if_pos (by simp [expected]), saturatingAdd_one (expected ▸ below)]
      exact le_advance small _ _
    omega
  · exact ⟨Nat.le_refl _, fun early => Nat.lt_of_le_of_ne early expected⟩

theorem Steady.store (steady : ring.Steady) (admitted : ring.refuse chunk = none) :
    (ring.store chunk).Steady := by
  obtain ⟨_, below, _⟩ := refuse_eq_none admitted
  have small := steady.small_insert below
  have forward := (steady.nextExpected_store below).1
  refine ⟨small, ?_, steady.delivered.trans forward, fun id flagged => ?_⟩
  · change (ring.received.insert chunk.chunkId chunk.data).lookup (ring.store chunk).nextExpected =
      none
    by_cases expected : chunk.chunkId = ring.nextExpected
    · rw [show (ring.store chunk).nextExpected = advance _ _ _ from if_pos expected]
      refine advance_stops small _ _ (Nat.lt_succ_of_le ?_)
      rw [← length_map Sigma.fst]
      exact countP_le_length
    · rw [show (ring.store chunk).nextExpected = ring.nextExpected from if_neg expected,
        HashMap.lookup_insert_eq, if_neg (Ne.symm expected)]
      exact steady.missing
  · exact Nat.lt_of_lt_of_le (steady.last id flagged) forward

theorem refuse_last (admitted : ring.refuse chunk = none) (isLast : chunk.isLast = true) :
    chunk.chunkId ≤ ring.nextExpected := by
  unfold refuse at admitted
  split_ifs at admitted with _ _ _ _ _ gap
  exact Nat.not_lt.mp fun ahead => gap ⟨isLast, ahead⟩

theorem Steady.insertChunk (steady : ring.Steady) (chunk : Chunk) :
    (ring.insertChunk chunk).1.Steady := by
  rcases ring.insertChunk_cases chunk with ⟨_, _, unchanged⟩ | ⟨admitted, last, marked, stored⟩
  · rw [unchanged]
    exact steady
  · rw [stored]
    refine { steady.store admitted with last := fun id flagged => ?_ }
    rcases marked with rfl | ⟨isLast, rfl⟩
    · exact (steady.store admitted).last id flagged
    · cases flagged
      exact (steady.nextExpected_store (refuse_eq_none admitted).2.1).2
        (refuse_last admitted isLast)

theorem Steady.completing (steady : ring.Steady)
    (holds : (ring.insertChunk chunk).1.holdsAll = true) :
    ring.holdsAll = true ∨ ∃ wait, (ring.insertChunk chunk).2 = .ok (.stored true wait) := by
  unfold InboundRingBuffer.insertChunk at holds ⊢
  split at holds
  · exact .inl holds
  · rename_i admitted
    dsimp only at holds ⊢
    split at holds
    · -- a gap is reported before a last id is recorded, which then is an earlier one
      refine .inl ?_
      obtain ⟨_, below, _⟩ := refuse_eq_none admitted
      have forward := (steady.nextExpected_store below).1
      unfold holdsAll at holds ⊢
      cases flagged : ring.lastChunkId with
      | none =>
        have : (ring.store chunk).lastChunkId = none := flagged
        simp [this] at holds
      | some last =>
        have : (ring.store chunk).lastChunkId = some last := flagged
        simp only [this, decide_eq_true_eq] at holds ⊢
        have behind := steady.last last flagged
        have atMost : saturatingAdd last 1 ≤ last + 1 := Nat.min_le_left _ _
        omega
    · rename_i noGap
      refine .inr ⟨false, ?_⟩
      rw [if_neg noGap]
      exact congrArg (fun complete => Except.ok (InboundInsertOutcome.stored complete false)) holds

theorem Steady.takeNext (steady : ring.Steady) {data : Bytes}
    (took : ring.takeNext = some (data, next)) :
    next.Steady ∧ next.holdsAll = ring.holdsAll := by
  obtain ⟨found, rfl⟩ := takeNext_eq_some took
  have small := steady.small ring.nextDeliver (by simp [found])
  have behind : ring.nextDeliver < ring.nextExpected := by
    refine Nat.lt_of_le_of_ne steady.delivered fun same => ?_
    rw [same, steady.missing] at found
    cases found
  have unmoved : max ring.nextExpected (saturatingAdd ring.nextDeliver 1) = ring.nextExpected := by
    rw [saturatingAdd_one small]
    omega
  refine ⟨⟨fun id present => ?_, ?_, ?_, ?_⟩, ?_⟩
  · rw [HashMap.lookup_erase_eq] at present
    split at present
    · cases present
    · exact steady.small id present
  · dsimp only
    rw [unmoved, HashMap.lookup_erase_eq, if_neg (Nat.ne_of_gt behind)]
    exact steady.missing
  · exact Nat.le_max_right _ _
  · intro id flagged
    exact Nat.lt_of_lt_of_le (steady.last id flagged) (Nat.le_max_left _ _)
  · unfold holdsAll
    dsimp only
    rw [unmoved]

end Steady

end InboundRingBuffer

end AureliaPeering.Ring
