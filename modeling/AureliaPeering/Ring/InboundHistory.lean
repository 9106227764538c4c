import AureliaPeering.Ring.HeldBytes
import Mathlib.Data.List.Induction

/-!
The inbound ring under any sequence of chunks and reads.

Chunks are handed out in the order of their ids, each in the copy that was stored first.  The last
id is the one of the chunk that was stored last with the flag; nothing keeps chunks beyond it out.
-/

namespace AureliaPeering.Ring

open Collections List

inductive InboundOp where
  | insert (chunk : Chunk)
  | take
deriving DecidableEq, Repr

/-- `stored` are the chunks that reached the map and `taken` what `take_next` returned, in order. -/
structure InboundHistory where
  ring : InboundRingBuffer
  stored : List Chunk
  taken : List Bytes

theorem InboundRingBuffer.fits_of_admitted {ring : InboundRingBuffer} {chunk : Chunk}
    (admitted : ring.refuse chunk = none) : chunk.data.length ≤ ring.size.chunkSize ∧
      chunk.chunkId < ring.nextExpected + ring.size.windowSize := by
  unfold refuse saturatingAdd at admitted
  split_ifs at admitted
  omega

namespace InboundHistory

def start (size : RingSize) : InboundHistory := ⟨.new size, [], []⟩

def apply (history : InboundHistory) : InboundOp → InboundHistory
  | .insert chunk =>
    { history with
      ring := (history.ring.insertChunk chunk).1
      stored :=
        if (history.ring.refuse chunk).isNone then history.stored ++ [chunk] else history.stored }
  | .take =>
    match history.ring.takeNext with
    | some (data, next) => { history with ring := next, taken := history.taken ++ [data] }
    | none => history

def of (size : RingSize) (ops : List InboundOp) : InboundHistory := ops.foldl apply (start size)

theorem take_cases (history : InboundHistory) :
    history.apply .take = history ∨ ∃ data next, history.ring.takeNext = some (data, next) ∧
      history.apply .take = { history with ring := next, taken := history.taken ++ [data] } := by
  cases took : history.ring.takeNext with
  | none => exact .inl (by simp [apply, took])
  | some result => exact .inr ⟨_, _, rfl, by simp [apply, took]⟩

/-- The chunks that were stored are in the map or were delivered, no two of them under one id, and
`copies` are those that were taken. -/
structure Inv (history : InboundHistory) (size : RingSize) (copies : List Chunk) : Prop where
  reassembled : history.ring.Reassembled (· ∈ history.stored) copies
  contiguous : history.ring.Contiguous
  bounded : history.ring.Bounded size
  bytes : history.taken = copies.map Chunk.data
  kept : ∀ chunk ∈ history.stored, chunk.chunkId < history.ring.nextDeliver ∨
    (history.ring.received.lookup chunk.chunkId).isSome
  distinct : (history.stored.map Chunk.chunkId).Nodup

variable {history : InboundHistory} {size : RingSize} {copies : List Chunk}
variable (inv : history.Inv size copies)

include inv

theorem Inv.new_id {chunk : Chunk} (admitted : history.ring.refuse chunk = none) :
    chunk.chunkId ∉ history.stored.map Chunk.chunkId := by
  obtain ⟨ahead, _, absent⟩ := InboundRingBuffer.refuse_eq_none admitted
  intro listed
  obtain ⟨earlier, isStored, same⟩ := mem_map.mp listed
  rcases inv.kept earlier isStored with delivered | present
  · omega
  · rw [same, absent] at present
    cases present

theorem Inv.insert (chunk : Chunk) : (history.apply (.insert chunk)).Inv size copies := by
  have contiguous := inv.contiguous.insertChunk chunk
  have bounded := inv.bounded.insertChunk chunk
  rcases history.ring.insertChunk_cases chunk with
    ⟨_, refused, unchanged⟩ | ⟨admitted, last, _, isStored⟩
  · simpa [apply, refused, unchanged] using inv
  · have reassembled := (inv.reassembled.mono fun other listed =>
      mem_append_left [chunk] listed).insertChunk (mem_append_right _ mem_cons_self)
    simp only [apply, admitted, Option.isNone_none, if_true]
    refine ⟨reassembled, contiguous, bounded, inv.bytes, fun other listed => ?_, ?_⟩
    · dsimp only
      rw [isStored]
      refine (mem_append.mp listed).elim (fun old => ?_) fun new => .inr ?_
      · exact (inv.kept other old).imp_right fun present =>
          (InboundRingBuffer.isSome_insert _).mpr (.inr present)
      · obtain rfl := mem_singleton.mp new
        exact (InboundRingBuffer.isSome_insert _).mpr (.inl rfl)
    · simpa [nodup_append, inv.distinct] using
        fun other listed same => inv.new_id admitted (mem_map.mpr ⟨other, listed, same⟩)

theorem Inv.take : ∃ copies, (history.apply .take).Inv size copies := by
  rcases history.take_cases with same | ⟨data, next, took, same⟩
  · rw [same]
    exact ⟨copies, inv⟩
  · rw [same]
    have contiguous := inv.contiguous.takeNext took
    have bounded := inv.bounded.takeNext took
    obtain ⟨chunk, rfl, reassembled⟩ := inv.reassembled.takeNext took
    refine ⟨_, reassembled, contiguous, bounded, by simp [inv.bytes], fun other listed => ?_,
      inv.distinct⟩
    obtain ⟨found, rfl⟩ := InboundRingBuffer.takeNext_eq_some took
    have step := saturatingAdd_one (inv.contiguous.small history.ring.nextDeliver (by simp [found]))
    dsimp only
    rw [HashMap.lookup_erase_eq]
    split_ifs with now
    · exact .inl (by omega)
    · exact (inv.kept other listed).imp_left fun earlier => by omega

theorem Inv.apply (op : InboundOp) : ∃ copies, (history.apply op).Inv size copies := by
  cases op with
  | insert chunk => exact ⟨copies, inv.insert chunk⟩
  | take => exact inv.take

theorem Inv.foldl (ops : List InboundOp) :
    ∃ copies, (ops.foldl InboundHistory.apply history).Inv size copies := by
  induction ops generalizing history copies with
  | nil => exact ⟨copies, inv⟩
  | cons op rest ih =>
    obtain ⟨_, next⟩ := inv.apply op
    exact ih next

omit inv

theorem inv_of (size : RingSize) (ops : List InboundOp) : ∃ copies, (of size ops).Inv size copies :=
  have inv : (start size).Inv size [] :=
    ⟨.start _ size, .start size, .start size, rfl, nofun, nodup_nil⟩
  inv.foldl ops

theorem Inv.find_stored (inv : history.Inv size copies) {chunk : Chunk}
    (isStored : chunk ∈ history.stored) :
    history.stored.find? (·.chunkId == chunk.chunkId) = some chunk := by
  obtain ⟨first, isFirst⟩ := Option.isSome_iff_exists.mp
    ((@find?_isSome _ _ (·.chunkId == chunk.chunkId)).mpr ⟨_, isStored, beq_self_eq_true _⟩)
  rw [isFirst, inj_on_of_nodup_map inv.distinct (mem_of_find?_eq_some isFirst) isStored
    (by simpa using find?_some isFirst)]

theorem Inv.first_copy (inv : history.Inv size copies) {index : Nat}
    (isTaken : index < history.taken.length) :
    (history.stored.find? (·.chunkId == index)).map Chunk.data = history.taken[index]? := by
  rw [inv.bytes, length_map] at isTaken
  have found : copies[index]? = some copies[index] := getElem?_eq_getElem isTaken
  have first := inv.find_stored (inv.reassembled.sent _ (mem_of_getElem? found))
  rw [inv.reassembled.numbered _ _ found] at first
  rw [first, inv.bytes, getElem?_map, found]

theorem Inv.next_copy (inv : history.Inv size copies) :
    (history.stored.find? (·.chunkId == history.ring.nextDeliver)).map Chunk.data =
      history.ring.received.lookup history.ring.nextDeliver := by
  cases found : history.ring.received.lookup history.ring.nextDeliver with
  | some data =>
    obtain ⟨_, _, _, isStored⟩ := inv.reassembled.stored _ _ found
    simp [inv.find_stored isStored]
  | none =>
    simp only [Option.map_eq_none_iff, find?_eq_none, beq_iff_eq]
    intro chunk isStored same
    rcases inv.kept chunk isStored with delivered | present
    · omega
    · rw [same, found] at present
      cases present

theorem monotone_apply (contiguous : history.ring.Contiguous) (op : InboundOp) :
    history.ring.nextDeliver ≤ (history.apply op).ring.nextDeliver ∧
      history.ring.nextExpected ≤ (history.apply op).ring.nextExpected := by
  cases op with
  | insert chunk =>
    rcases history.ring.insertChunk_cases chunk with ⟨_, _, same⟩ | ⟨admitted, _, _, same⟩
    · simp only [apply, same, Nat.le_refl, and_self]
    · have below := (InboundRingBuffer.refuse_eq_none admitted).2.1
      simpa only [apply, same] using ⟨Nat.le_refl _, (contiguous.nextExpected_store below).1⟩
  | take =>
    rcases history.take_cases with same | ⟨data, next, took, same⟩
    · simp only [same, Nat.le_refl, and_self]
    · obtain ⟨found, rfl⟩ := InboundRingBuffer.takeNext_eq_some took
      have small := contiguous.small history.ring.nextDeliver (by simp [found])
      rw [same]
      exact ⟨by rw [saturatingAdd_one small]; exact Nat.le_succ _, Nat.le_max_left _ _⟩

/-- After any sequence of chunks and reads: the reads returned the chunks 0, 1, 2, ... in the copies
that were stored first, the next read returns the next chunk if it was stored, none is stored twice,
the ring holds the chunks up to the expected one and none outside its window, the counters only
grow, and the loop over the expected id meets its exit test within as many turns as chunks are
stored. -/
theorem reassembles_in_order (size : RingSize) (ops : List InboundOp) :
    let history := of size ops
    let ring := history.ring
    (∀ index < history.taken.length,
      (history.stored.find? (·.chunkId == index)).map Chunk.data = history.taken[index]?) ∧
    (history.apply .take).taken = history.taken ++
      ((history.stored.find? (·.chunkId == ring.nextDeliver)).map Chunk.data).toList ∧
    history.taken.length = ring.nextDeliver ∧ (history.stored.map Chunk.chunkId).Nodup ∧
    (∀ id, ring.nextDeliver ≤ id → id < ring.nextExpected → (ring.received.lookup id).isSome) ∧
    ring.received.lookup ring.nextExpected = none ∧
    (∀ id, (ring.received.lookup id).isSome →
      ring.nextDeliver ≤ id ∧ id < ring.nextExpected + size.windowSize) ∧
    ring.received.entries.length ≤ size.windowSize ∧
    (∀ op, ring.nextDeliver ≤ (history.apply op).ring.nextDeliver ∧
      ring.nextExpected ≤ (history.apply op).ring.nextExpected) ∧
    ∀ chunk fuel, ring.refuse chunk = none → (ring.store chunk).received.entries.length < fuel →
      (ring.store chunk).received.lookup
        (InboundRingBuffer.advance (ring.store chunk).received fuel ring.nextExpected) = none := by
  intro history ring
  obtain ⟨copies, inv⟩ : ∃ copies, history.Inv size copies := inv_of size ops
  refine ⟨fun index => inv.first_copy, ?_, ?_, inv.distinct, inv.contiguous.filled,
    inv.contiguous.missing, ?_, inv.bounded.few, monotone_apply inv.contiguous, ?_⟩
  · rw [inv.next_copy, apply, InboundRingBuffer.takeNext]
    cases history.ring.received.lookup history.ring.nextDeliver <;> simp
  · rw [inv.bytes, length_map]
    exact inv.reassembled.counted.symm
  · rw [← inv.bounded.size]
    exact inv.contiguous.windowed
  · intro chunk fuel admitted enough
    refine InboundRingBuffer.advance_stops (inv.contiguous.store admitted).small _ _ ?_
    exact Nat.lt_of_le_of_lt (countP_le_length.trans_eq (length_map _)) enough

example : (of ⟨1, 2, by decide, by decide⟩ [.take, .insert ⟨1, [2], false⟩,
    .insert ⟨0, [1], false⟩, .insert ⟨0, [3], false⟩, .take, .take, .take]).taken = [[1], [2]] := by
  decide

/-- The chunks that are not too long. -/
def offered (size : RingSize) (ops : List InboundOp) : List Chunk :=
  ops.filterMap fun
    | .insert chunk => if chunk.data.length ≤ size.chunkSize then some chunk else none
    | .take => none

/-- `chunk` does not dispute that `last` is the last chunk. -/
def Within (last chunk : Chunk) : Prop :=
  chunk.chunkId ≤ last.chunkId ∧ (chunk.chunkId = last.chunkId → chunk.isLast = true)

/-- A chunk that disputes the flag of another is too long, or a whole window beyond it. -/
def EndsAtLast (size : RingSize) (ops : List InboundOp) : Prop :=
  ∀ last ∈ offered size ops, last.isLast = true → ∀ chunk ∈ offered size ops,
    Within last chunk ∨ last.chunkId + 1 + size.windowSize ≤ chunk.chunkId

theorem Inv.recorded_of_last (inv : history.Inv size copies) {last : Chunk}
    (isLast : last.isLast = true) (admitted : history.ring.refuse last = none)
    (top : ∀ chunk ∈ history.stored ++ [last], chunk.chunkId ≤ last.chunkId) :
    (history.ring.insertChunk last).1.lastChunkId = some last.chunkId := by
  have past := (inv.contiguous.nextExpected_store (InboundRingBuffer.refuse_eq_none admitted).2.1).2
    (InboundRingBuffer.refuse_last admitted isLast)
  have reassembled := (inv.reassembled.mono fun other listed =>
    mem_append_left [last] listed).store (mem_append_right _ mem_cons_self) admitted
  have noGap : (history.ring.store last).hasGap = false := by
    refine Bool.eq_false_iff.mpr fun gap => ?_
    simp only [InboundRingBuffer.hasGap, Bool.and_eq_true, any_eq_true, decide_eq_true_eq] at gap
    obtain ⟨_, id, listed, ahead⟩ := gap
    obtain ⟨data, found⟩ := Option.isSome_iff_exists.mp (AList.lookup_isSome.mpr listed)
    obtain ⟨_, _, _, isStored⟩ := reassembled.stored id data found
    have below : id ≤ last.chunkId := top _ isStored
    omega
  simp [InboundRingBuffer.insertChunk, admitted, noGap, isLast]

theorem Inv.stored_of_lt (inv : history.Inv size copies) {id : Nat}
    (below : id < history.ring.nextExpected) : ∃ chunk ∈ history.stored, chunk.chunkId = id := by
  by_cases delivered : id < history.ring.nextDeliver
  · have found := getElem?_eq_getElem (inv.reassembled.counted ▸ delivered)
    exact ⟨_, inv.reassembled.sent _ (mem_of_getElem? found), inv.reassembled.numbered _ _ found⟩
  · obtain ⟨data, found⟩ := Option.isSome_iff_exists.mp
      (inv.contiguous.filled id (Nat.not_lt.mp delivered) below)
    obtain ⟨_, _, _, isStored⟩ := inv.reassembled.stored id data found
    exact ⟨_, isStored, rfl⟩

theorem stored_concat (size : RingSize) (ops : List InboundOp) (op : InboundOp) :
    (of size (ops ++ [op])).stored = (of size ops).stored ∨
      ∃ chunk, op = .insert chunk ∧ (of size ops).ring.refuse chunk = none ∧
        (of size (ops ++ [op])).stored = (of size ops).stored ++ [chunk] := by
  rw [of, foldl_concat, ← of]
  cases op with
  | insert chunk =>
    cases refused : (of size ops).ring.refuse chunk with
    | some answer => exact .inl (by simp [apply, refused])
    | none => exact .inr ⟨chunk, rfl, refused, by simp [apply, refused]⟩
  | take =>
    rcases (of size ops).take_cases with same | ⟨_, _, _, same⟩ <;> exact .inl (by rw [same])

theorem offered_of_stored {ops : List InboundOp} :
    ∀ chunk ∈ (of size ops).stored, chunk ∈ offered size ops := by
  induction ops using List.reverseRecOn with
  | nil => simp [of, start]
  | append_singleton ops op ih =>
    intro chunk isStored
    rw [offered, filterMap_append, mem_append]
    rcases stored_concat size ops op with same | ⟨new, rfl, admitted, same⟩
    · exact .inl (ih chunk (same ▸ isStored))
    · rw [same] at isStored
      refine (mem_append.mp isStored).imp (ih chunk) fun isNew => ?_
      obtain ⟨copies, inv⟩ := inv_of size ops
      have short := (InboundRingBuffer.fits_of_admitted admitted).1
      rw [inv.bounded.size] at short
      simpa [short] using isNew

theorem Inv.expected_le (inv : history.Inv size copies) {last : Chunk}
    (within : ∀ chunk ∈ history.stored, Within last chunk) :
    history.ring.nextExpected ≤ last.chunkId + 1 := by
  by_contra beyond
  obtain ⟨chunk, isStored, same⟩ := inv.stored_of_lt (Nat.not_le.mp beyond)
  have most := (within chunk isStored).1
  omega

/-- A chunk that is a window beyond the last one never comes near enough to be stored. -/
theorem within_of_stored {last : Chunk} {ops : List InboundOp}
    (ends : ∀ chunk ∈ offered size ops,
      Within last chunk ∨ last.chunkId + 1 + size.windowSize ≤ chunk.chunkId) :
    ∀ chunk ∈ (of size ops).stored, Within last chunk := by
  induction ops using List.reverseRecOn with
  | nil => simp [of, start]
  | append_singleton ops op ih =>
    have earlier := ih fun chunk isOffered =>
      ends chunk (by rw [offered, filterMap_append]; exact mem_append_left _ isOffered)
    intro chunk isStored
    have isOffered := offered_of_stored chunk isStored
    rcases stored_concat size ops op with same | ⟨new, rfl, admitted, same⟩
    · exact earlier chunk (same ▸ isStored)
    · rw [same] at isStored
      refine (mem_append.mp isStored).elim (earlier chunk) fun isNew => ?_
      obtain rfl := mem_singleton.mp isNew
      obtain ⟨copies, inv⟩ := inv_of size ops
      have near := (InboundRingBuffer.fits_of_admitted admitted).2
      have behind := inv.expected_le earlier
      rw [inv.bounded.size] at near
      exact (ends chunk isOffered).resolve_right (by omega)

theorem EndsAtLast.within {ops : List InboundOp} (ends : EndsAtLast size ops) {last chunk : Chunk}
    (lastStored : last ∈ (of size ops).stored) (isLast : last.isLast = true)
    (isStored : chunk ∈ (of size ops).stored) : Within last chunk :=
  within_of_stored (ends last (offered_of_stored last lastStored) isLast) chunk isStored

theorem EndsAtLast.left {ops more : List InboundOp} (ends : EndsAtLast size (ops ++ more)) :
    EndsAtLast size ops := by
  simp only [EndsAtLast, offered, filterMap_append, mem_append] at ends ⊢
  exact fun last first isLast chunk second => ends last (.inl first) isLast chunk (.inl second)

theorem recorded_of_stored {ops : List InboundOp} (ends : EndsAtLast size ops) :
    ∀ chunk ∈ (of size ops).stored, chunk.isLast = true →
      (of size ops).ring.lastChunkId = some chunk.chunkId := by
  induction ops using List.reverseRecOn with
  | nil => simp [of, start]
  | append_singleton ops op ih =>
    obtain ⟨copies, inv⟩ := inv_of size ops
    intro chunk isStored isLast
    have top := fun {last other} => @EndsAtLast.within _ _ ends last other
    rw [of, foldl_concat, ← of] at isStored top ⊢
    cases op with
    | insert new =>
      rcases (of size ops).ring.insertChunk_cases new with
        ⟨_, refused, unchanged⟩ | ⟨admitted, lastId, marked, same⟩
      · simp only [apply, refused, unchanged] at isStored ⊢
        exact ih ends.left chunk isStored isLast
      · simp only [apply, admitted, Option.isNone_none, if_true] at isStored top ⊢
        by_cases flagged : new.isLast = true
        · have newStored := mem_append_right (of size ops).stored (@mem_cons_self _ new [])
          rw [inv.recorded_of_last flagged admitted fun other listed =>
            (top newStored flagged listed).1]
          exact congrArg some (Nat.le_antisymm (top isStored isLast newStored).1
            (top newStored flagged isStored).1)
        · have old : chunk ∈ (of size ops).stored := (mem_append.mp isStored).resolve_right
            fun isNew => flagged (mem_singleton.mp isNew ▸ isLast)
          rw [same, marked.resolve_right fun now => flagged now.1]
          exact ih ends.left chunk old isLast
    | take =>
      rcases (of size ops).take_cases with same | ⟨data, next, took, same⟩
      · rw [same] at isStored ⊢
        exact ih ends.left chunk isStored isLast
      · rw [same] at isStored ⊢
        obtain ⟨_, rfl⟩ := InboundRingBuffer.takeNext_eq_some took
        exact ih ends.left chunk isStored isLast

theorem expected_of_last {ops : List InboundOp} (ends : EndsAtLast size ops) {last : Chunk}
    (isStored : last ∈ (of size ops).stored) (isLast : last.isLast = true) :
    (of size ops).ring.nextExpected = saturatingAdd last.chunkId 1 ∧
      saturatingAdd last.chunkId 1 = last.chunkId + 1 := by
  obtain ⟨copies, inv⟩ := inv_of size ops
  have behind := inv.contiguous.last _ (recorded_of_stored ends last isStored isLast)
  have small : last.chunkId < u64Max := (inv.kept last isStored).elim
    (fun delivered => Nat.lt_of_lt_of_le delivered inv.reassembled.bounded) (inv.contiguous.small _)
  have most := inv.expected_le fun chunk listed => ends.within isStored isLast listed
  rw [saturatingAdd_one small]
  omega

/-- What a chunk says about the end of the stream is at odds with what is stored. -/
def Disputes (stored : List Chunk) (chunk : Chunk) : Prop :=
  ∃ other ∈ stored, other.isLast = true ∧ ¬Within other chunk ∨
    chunk.isLast = true ∧ ¬Within chunk other

theorem error_of_disputes {ops : List InboundOp} {chunk : Chunk}
    (ends : EndsAtLast size (ops ++ [.insert chunk]))
    (disputes : Disputes (of size ops).stored chunk) :
    ∃ error, (of size ops).ring.insertChunk chunk = ((of size ops).ring, .error error) := by
  obtain ⟨copies, inv⟩ := inv_of size ops
  obtain ⟨other, isStored, contrary⟩ := disputes
  suffices ∃ error, (of size ops).ring.refuse chunk = some (.error error) by
    obtain ⟨error, refused⟩ := this
    exact ⟨error, by rw [InboundRingBuffer.insertChunk, refused]⟩
  unfold InboundRingBuffer.refuse
  rw [inv.bounded.size]
  by_cases long : size.chunkSize < chunk.data.length
  · exact ⟨_, by rw [if_pos long]⟩
  have isOffered : chunk ∈ offered size (ops ++ [.insert chunk]) := by
    simp [offered, Nat.not_lt.mp long]
  have meets : ∀ last ∈ offered size ops, last.isLast = true →
      Within last chunk ∨ last.chunkId + 1 + size.windowSize ≤ chunk.chunkId := fun last listed
      isLast => ends last (by rw [offered, filterMap_append]; exact mem_append_left _ listed) isLast
        chunk isOffered
  rcases contrary with ⟨isLast, beyond⟩ | ⟨isLast, beyond⟩
  · have far := (meets other (offered_of_stored other isStored) isLast).resolve_left beyond
    have expected := inv.expected_le fun chunk listed => ends.left.within isStored isLast listed
    have delivered := inv.contiguous.delivered
    have window := Nat.min_le_left
      ((of size ops).ring.nextExpected + size.windowSize) u64Max
    rw [if_neg long, if_neg (by omega), if_pos (by rw [saturatingAdd]; omega)]
    exact ⟨_, rfl⟩
  · refine absurd (within_of_stored (fun other listed => ?_) other isStored) beyond
    exact ends chunk isOffered isLast other
      (by rw [offered, filterMap_append]; exact mem_append_left _ listed)

theorem complete_of_reported {ring : InboundRingBuffer} {chunk : Chunk} {complete wait : Bool}
    (reported : (ring.insertChunk chunk).2 = .ok (.stored complete wait)) :
    complete = (ring.insertChunk chunk).1.holdsAll := by
  unfold InboundRingBuffer.insertChunk at reported ⊢
  split at reported
  next answer refused =>
    unfold InboundRingBuffer.refuse at refused
    split_ifs at refused <;> simp_all
  next admitted =>
    dsimp only at reported ⊢
    split_ifs at reported ⊢
    all_goals cases reported
    all_goals rfl

theorem holdsAll_iff {ops : List InboundOp} (ends : EndsAtLast size ops) :
    (of size ops).ring.holdsAll = true ↔ ∃ last ∈ (of size ops).stored, last.isLast = true := by
  obtain ⟨copies, inv⟩ := inv_of size ops
  unfold InboundRingBuffer.holdsAll
  constructor
  · intro holds
    split at holds
    next id recorded =>
      rcases inv.reassembled.last id recorded with ⟨data, _, isStored⟩ | ⟨chunk, isTaken, isLast⟩
      · exact ⟨_, isStored, rfl⟩
      · exact ⟨chunk, inv.reassembled.sent _ (mem_of_getElem? isTaken), isLast⟩
    next => cases holds
  · rintro ⟨last, isStored, isLast⟩
    rw [recorded_of_stored ends last isStored isLast]
    exact decide_eq_true (expected_of_last ends isStored isLast).1

/-- If no chunk that could be stored disputes a flag, then once a chunk with the flag is stored its
id is the last one for good: nothing above it is stored or handed out, everything up to it is
stored, and the ring is complete when all of it was read.  A chunk is reported as completing exactly
when a chunk with the flag and everything before it are stored, and one that disputes what is stored
gets an error and changes nothing. -/
theorem last_is_final (size : RingSize) (ops : List InboundOp) (ends : EndsAtLast size ops) :
    let history := of size ops
    (∀ last ∈ history.stored, last.isLast = true →
      history.ring.lastChunkId = some last.chunkId ∧
      (∀ chunk ∈ history.stored, chunk.chunkId ≤ last.chunkId) ∧
      history.taken.length ≤ last.chunkId + 1 ∧
      (∀ id ≤ last.chunkId, ∃ chunk ∈ history.stored, chunk.chunkId = id) ∧
      (history.ring.isComplete = true ↔ history.taken.length = last.chunkId + 1)) ∧
    ∀ before chunk, ops = before ++ [.insert chunk] →
      (∀ complete wait,
        ((of size before).ring.insertChunk chunk).2 = .ok (.stored complete wait) →
        (complete = true ↔ ∃ last ∈ history.stored, last.isLast = true ∧
          ∀ id ≤ last.chunkId, ∃ chunk ∈ history.stored, chunk.chunkId = id)) ∧
      (Disputes (of size before).stored chunk → ∃ error,
        (of size before).ring.insertChunk chunk = ((of size before).ring, .error error)) := by
  intro history
  obtain ⟨copies, inv⟩ : ∃ copies, history.Inv size copies := inv_of size ops
  have filled : ∀ last ∈ history.stored, last.isLast = true → ∀ id ≤ last.chunkId,
      ∃ chunk ∈ history.stored, chunk.chunkId = id := fun last isStored isLast id most =>
    inv.stored_of_lt (Nat.lt_of_le_of_lt most
      (inv.contiguous.last _ (recorded_of_stored ends last isStored isLast)))
  refine ⟨fun last isStored isLast => ?_, fun before chunk split => ?_⟩
  · have recorded := recorded_of_stored ends last isStored isLast
    obtain ⟨expected, exact⟩ := expected_of_last ends isStored isLast
    have delivered := inv.contiguous.delivered
    have counted : history.taken.length = history.ring.nextDeliver := by
      rw [inv.bytes, length_map]
      exact inv.reassembled.counted.symm
    have behind : history.taken.length ≤ last.chunkId + 1 := by
      rw [counted, ← exact, ← expected]
      exact delivered
    refine ⟨recorded, fun chunk listed => (ends.within isStored isLast listed).1, behind,
      filled last isStored isLast, ?_⟩
    rw [InboundRingBuffer.isComplete, recorded, ← counted, decide_eq_true_eq]
    omega
  · subst split
    refine ⟨fun complete wait reported => ?_, error_of_disputes ends⟩
    have same : history.ring = ((of size before).ring.insertChunk chunk).1 := by
      simp [history, of, apply]
    rw [complete_of_reported reported, ← same, holdsAll_iff ends]
    exact ⟨fun ⟨last, isStored, isLast⟩ => ⟨last, isStored, isLast, filled last isStored isLast⟩,
      fun ⟨last, isStored, isLast, _⟩ => ⟨last, isStored, isLast⟩⟩

/-- Two chunks that are stored and read, and one beyond the last of them. -/
theorem last_is_final_pair :
    let size : RingSize := ⟨1, 2, by decide, by decide⟩
    let before : List InboundOp :=
      [.insert ⟨0, [1], false⟩, .take, .insert ⟨1, [2], true⟩, .take, .insert ⟨1, [3], true⟩]
    let history := of size (before ++ [.insert ⟨4, [5], false⟩])
    history.taken = [[1], [2]] ∧ history.ring.lastChunkId = some 1 ∧
    (∀ chunk ∈ history.stored, chunk.chunkId ≤ 1) ∧
    (∀ id ≤ 1, ∃ chunk ∈ history.stored, chunk.chunkId = id) ∧ history.ring.isComplete = true ∧
    ∃ error, (of size before).ring.insertChunk ⟨4, [5], false⟩ =
      ((of size before).ring, .error error) := by
  intro size before history
  have final := last_is_final size (before ++ [.insert ⟨4, [5], false⟩])
    (by simp [EndsAtLast, offered, before, size, Within])
  obtain ⟨recorded, most, -, filled, complete⟩ := final.1 ⟨1, [2], true⟩ (by decide) rfl
  exact ⟨by decide, recorded, most, filled, complete.mpr (by decide),
    (final.2 before _ rfl).2 ⟨⟨1, [2], true⟩, by decide, .inl ⟨rfl, by simp [Within]⟩⟩⟩

/-- A chunk beyond the last one is stored without an error and handed to the reader. -/
theorem data_beyond_last_delivered :
    let size : RingSize := ⟨1, 2, by decide, by decide⟩
    let first := of size [.insert ⟨0, [1], true⟩]
    let history := of size [.insert ⟨0, [1], true⟩, .insert ⟨1, [2], false⟩, .take, .take]
    first.ring.lastChunkId = some 0 ∧ first.ring.holdsAll = true ∧
    (first.ring.insertChunk ⟨1, [2], false⟩).2.toOption = some (.stored false false) ∧
    history.taken = [[1], [2]] := by
  decide

end InboundHistory

end AureliaPeering.Ring
