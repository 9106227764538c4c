import AureliaPeering.Blob.ReceiverStream

/-!
When a reader of a blob stream may report zero bytes.
-/

namespace AureliaPeering.Blob

open AureliaPeering.Ring List Option

/-- The chunks up to one flagged as the last have been sent, and their bytes are those returned. -/
structure FullyRead (sent : List Chunk) (returned : Bytes) (taken : List Chunk) : Prop where
  sent : ∀ chunk ∈ taken, chunk ∈ sent
  numbered : ∀ (index : Nat) (chunk : Chunk), taken[index]? = some chunk → chunk.chunkId = index
  last : ∃ chunk ∈ taken, chunk.isLast = true
  bytes : returned = taken.flatMap Chunk.data

theorem FullyRead.mono {sent more : List Chunk} {returned : Bytes} {taken : List Chunk}
    (read : FullyRead sent returned taken) (grows : ∀ chunk ∈ sent, chunk ∈ more) :
    FullyRead more returned taken :=
  ⟨fun chunk listed => grows chunk (read.sent chunk listed), read.numbered, read.last, read.bytes⟩

def StreamTask.isRemover : StreamTask → Bool
  | .failing held _ | .removing held _ => held
  | .recording _ => true
  | _ => false

namespace ReceiverRun

/-- Every report of zero bytes came after the bytes of all chunks up to a last one. -/
def EofSound (run : ReceiverRun) : Prop :=
  ∀ returned ∈ run.zeroReads, ∃ taken, FullyRead run.sent returned taken

/-- The condition on a step.  An empty chunk is the last one.  A reader that found no ring and loads
a set `completed` flag does so while the stream is not listed, no error is recorded and no task is
about to record one. -/
def Orderly (run : ReceiverRun) : Label → Prop
  | .handleChunk chunk _ _ => chunk.data = [] → chunk.isLast = true
  | .resume _ =>
    (run.pending = some (.attempt false .loadRemoved) ∨
      run.pending = some (.attempt true .loadRemoved)) →
    run.receiver.completed = true →
    run.recvStream = false ∧ run.receiver.error = none ∧
      ∀ task ∈ run.tasks, task.isRemover = false
  | _ => True

instance (run : ReceiverRun) (label : Label) : Decidable (run.Orderly label) :=
  match label with
  | .handleChunk chunk _ _ => inferInstanceAs (Decidable (chunk.data = [] → chunk.isLast = true))
  | .resume _ => inferInstanceAs (Decidable (_ ∨ _ → _ → _ ∧ _ ∧ ∀ task ∈ run.tasks, _))
  | .accept | .addPendingRequest | .takePendingRequest _ | .dropPendingRequest | .insertRecvStream
  | .failReceiver _ | .handleError _ | .expire | .failAllStreams _ | .turn _ | .pollRead _ =>
    .isTrue trivial

/-- The chunks `taken` from the ring are those the reader has been given, the current one in
part. -/
structure Content (sent : List Chunk) (ring : Option InboundRingBuffer) (current : Option Bytes)
    (offset : Nat) (returned : Bytes) (zeroReads : List Bytes) (taken : List Chunk) : Prop where
  noRing : ring = none → taken = []
  ring : ∀ buffer, ring = some buffer → buffer.Reassembled (· ∈ sent) taken
  between : current = none → returned = taken.flatMap Chunk.data
  within : ∀ data, current = some data → ∃ earlier chunk, taken = earlier ++ [chunk] ∧
    chunk.data = data ∧ returned = earlier.flatMap Chunk.data ++ data.take offset ∧
    (data = [] ∨ offset < data.length)
  flagged : ∀ chunk ∈ sent, chunk.data = [] → chunk.isLast = true
  zeroReads : ∀ sofar ∈ zeroReads, ∃ read, FullyRead sent sofar read

section Content

variable {sent taken : List Chunk} {ring : Option InboundRingBuffer} {current : Option Bytes}
  {offset : Nat} {returned : Bytes} {zeroReads : List Bytes}
variable {chunk : Chunk} {buffer : InboundRingBuffer} {data : Bytes}

theorem Content.sent_taken (content : Content sent ring current offset returned zeroReads taken) :
    (∀ chunk ∈ taken, chunk ∈ sent) ∧
      ∀ (index : Nat) (chunk : Chunk), taken[index]? = some chunk → chunk.chunkId = index := by
  cases present : ring with
  | none =>
    obtain rfl := content.noRing present
    simp
  | some buffer =>
    have reassembled := content.ring buffer present
    exact ⟨reassembled.sent, reassembled.numbered⟩

theorem Content.fullyRead (content : Content sent ring none offset returned zeroReads taken)
    (last : ∃ chunk ∈ taken, chunk.isLast = true) : FullyRead sent returned taken :=
  ⟨content.sent_taken.1, content.sent_taken.2, last, content.between rfl⟩

theorem Content.arrive (content : Content sent ring current offset returned zeroReads taken)
    (flagged : chunk.data = [] → chunk.isLast = true) :
    Content (sent ++ [chunk]) ring current offset returned zeroReads taken := by
  have grows : ∀ old ∈ sent, old ∈ sent ++ [chunk] := fun old listed =>
    mem_append_left _ listed
  refine ⟨content.noRing, fun buffer present => (content.ring buffer present).mono grows,
    content.between, content.within, ?_, ?_⟩
  · intro old listed
    rcases mem_append.mp listed with before | new
    · exact content.flagged old before
    · obtain rfl := mem_singleton.mp new
      exact flagged
  · intro sofar listed
    obtain ⟨read, fully⟩ := content.zeroReads sofar listed
    exact ⟨read, fully.mono grows⟩

theorem Content.insert
    (content : Content sent (some buffer) current offset returned zeroReads taken)
    (arrived : chunk ∈ sent) :
    Content sent (some (buffer.insertChunk chunk).1) current offset returned zeroReads taken := by
  refine ⟨nofun, ?_, content.between, content.within, content.flagged,
    content.zeroReads⟩
  intro _ present
  cases present
  exact (content.ring buffer rfl).insertChunk arrived

theorem Content.activate (content : Content sent none current offset returned zeroReads taken)
    (size : RingSize) :
    Content sent (some (.new size)) current offset returned zeroReads taken := by
  obtain rfl := content.noRing rfl
  refine ⟨fun _ => rfl, ?_, content.between, content.within, content.flagged, content.zeroReads⟩
  intro _ present
  cases present
  exact .start _ size

theorem Content.take {next : InboundRingBuffer}
    (content : Content sent (some buffer) none offset returned zeroReads taken)
    (took : buffer.takeNext = some (data, next)) :
    ∃ chunk, Content sent (some next) (some data) 0 returned zeroReads (taken ++ [chunk]) := by
  obtain ⟨chunk, rfl, reassembled⟩ := (content.ring buffer rfl).takeNext took
  refine ⟨chunk, nofun, ?_, nofun, ?_,
    content.flagged, content.zeroReads⟩
  · intro _ present
    cases present
    exact reassembled
  · intro _ present
    cases present
    refine ⟨taken, chunk, rfl, rfl, by simpa using content.between rfl, ?_⟩
    rcases eq_nil_or_concat chunk.data with empty | ⟨_, _, nonempty⟩
    · exact .inl empty
    · exact .inr (by simp [nonempty])

theorem Content.report (content : Content sent ring current offset returned zeroReads taken)
    {read : List Chunk} (fully : FullyRead sent returned read) :
    Content sent ring current offset returned (zeroReads ++ [returned]) taken := by
  refine ⟨content.noRing, content.ring, content.between, content.within, content.flagged, ?_⟩
  intro sofar listed
  rcases mem_append.mp listed with old | new
  · exact content.zeroReads sofar old
  · obtain rfl := mem_singleton.mp new
    exact ⟨read, fully⟩

theorem Content.copy
    (content : Content sent ring (some data) offset returned zeroReads taken) (capacity : Nat) :
    let copied := (data.drop offset).take capacity
    (data.length ≤ offset + copied.length →
      Content sent ring none 0 (returned ++ copied) zeroReads taken) ∧
    (¬ data.length ≤ offset + copied.length →
      Content sent ring (some data) (offset + copied.length) (returned ++ copied) zeroReads
        taken) := by
  intro copied
  obtain ⟨earlier, chunk, split, rfl, given, _⟩ := content.within data rfl
  have copiedTake : returned ++ copied =
      earlier.flatMap Chunk.data ++ chunk.data.take (offset + copied.length) := by
    have length : copied.length = min capacity (chunk.data.length - offset) := by
      simp [copied]
    have prefixed : copied = (chunk.data.drop offset).take copied.length := by
      rw [length]
      simp only [copied]
      rw [take_eq_take_iff]
      simp
    rw [given, append_assoc, take_add, ← prefixed]
  constructor
  · intro finished
    refine ⟨content.noRing, content.ring, fun _ => ?_, nofun,
      content.flagged, content.zeroReads⟩
    rw [copiedTake, split, take_of_length_le finished]
    simp
  · intro unfinished
    refine ⟨content.noRing, content.ring, nofun, ?_, content.flagged,
      content.zeroReads⟩
    intro _ present
    cases present
    exact ⟨earlier, chunk, split, rfl, copiedTake, .inr (Nat.lt_of_not_le unfinished)⟩

theorem Content.fullyRead_of_empty
    (content : Content sent ring (some data) offset returned zeroReads taken) {capacity : Nat}
    (room : 0 < capacity) (nothing : (data.drop offset).take capacity = []) :
    FullyRead sent returned taken := by
  obtain ⟨_, chunk, split, rfl, given, bound⟩ := content.within data rfl
  have empty : chunk.data = [] := by
    refine bound.resolve_right fun below => ?_
    have length := congrArg length nothing
    simp only [length_take, length_drop, length_nil] at length
    omega
  have listed : chunk ∈ taken := by simp [split]
  refine ⟨content.sent_taken.1, content.sent_taken.2, ⟨chunk, listed, ?_⟩, ?_⟩
  · exact content.flagged chunk (content.sent_taken.1 chunk listed) empty
  · simp [given, split, empty]

end Content

/-- A last chunk was taken, the failure of the stream is recorded, or a task will record it. -/
def Ended (run : ReceiverRun) (taken : List Chunk) : Prop :=
  (∃ chunk ∈ taken, chunk.isLast = true) ∨ run.receiver.error.isSome = true ∨
    ∃ task ∈ run.tasks, task.isRemover = true

def TaskOk (run : ReceiverRun) : StreamTask → Prop
  | .inserting chunk => run.ring.isSome = true ∧ chunk ∈ run.sent
  | .completing => run.ring.isSome = true
  | .completingFailure => run.receiver.error.isSome = true
  | .failing _ _ | .removing _ _ | .recording _ => True

def ReadOk (run : ReceiverRun) (taken : List Chunk) : ReadPhase → Prop
  | .attempt _ .remove | .attempt _ .noteComplete => ∃ chunk ∈ taken, chunk.isLast = true
  | .completeIdle | .removeIdle => run.receiver.error.isSome = true
  | _ => True

/-- The three facts behind an end of stream, and what each task and the reader rely on. -/
structure Control (run : ReceiverRun) (taken : List Chunk) : Prop where
  early : run.request ≠ .gone → run.ring = none
  listed : run.recvStream = true → run.ring.isSome = true
  ended : run.ring.isSome = true → run.recvStream = false → run.Ended taken
  completed : run.receiver.completed = true →
    run.receiver.error.isSome = true ∨ run.ring.isSome = true
  tasks : ∀ task ∈ run.tasks, run.TaskOk task
  reader : ∀ phase, run.pending = some phase → run.ReadOk taken phase
  idle : run.pending ≠ none → run.current = none

structure Grows (run next : ReceiverRun) : Prop where
  ring : run.ring.isSome = true → next.ring.isSome = true
  error : run.receiver.error.isSome = true → next.receiver.error.isSome = true
  sent : ∀ chunk ∈ run.sent, chunk ∈ next.sent

section Control

variable {run next : ReceiverRun} {taken : List Chunk}
variable {task : StreamTask} {phase : ReadPhase}

theorem TaskOk.mono (grows : run.Grows next) (ok : run.TaskOk task) :
    next.TaskOk task := by
  cases task with
  | inserting chunk => exact ⟨grows.ring ok.1, grows.sent chunk ok.2⟩
  | completing => exact grows.ring ok
  | completingFailure => exact grows.error ok
  | failing | removing | recording => trivial

theorem ReadOk.mono (grows : run.Grows next) (ok : run.ReadOk taken phase) :
    next.ReadOk taken phase := by
  unfold ReadOk at ok ⊢
  split <;> simp_all [grows.error]

theorem Control.frame (control : run.Control taken) (grows : run.Grows next)
    (sameRing : next.ring.isSome = run.ring.isSome) (sameListing : next.recvStream = run.recvStream)
    (request : next.request = run.request)
    (completed : next.receiver.completed = true →
      run.receiver.completed = true ∨ next.receiver.error.isSome = true ∨ next.ring.isSome = true)
    (removers : (∃ task ∈ run.tasks, task.isRemover = true) →
      next.receiver.error.isSome = true ∨ ∃ task ∈ next.tasks, task.isRemover = true)
    (tasks : ∀ task ∈ next.tasks, next.TaskOk task)
    (reader : ∀ phase, next.pending = some phase → next.ReadOk taken phase)
    (idle : next.pending ≠ none → next.current = none) : next.Control taken := by
  refine ⟨?_, ?_, ?_, ?_, tasks, reader, idle⟩
  · intro notGone
    have none := control.early (request ▸ notGone)
    rw [none] at sameRing
    exact isNone_iff_eq_none.mp (by simpa using sameRing)
  · intro isListed
    rw [sameRing]
    exact control.listed (sameListing ▸ isListed)
  · intro activated unlisted
    rcases control.ended (sameRing ▸ activated) (sameListing ▸ unlisted) with
      last | failed | remover
    · exact .inl last
    · exact .inr (.inl (grows.error failed))
    · exact .inr (removers remover)
  · intro isCompleted
    rcases completed isCompleted with before | failed
    · exact (control.completed before).imp grows.error grows.ring
    · exact failed

theorem Control.unlist (control : run.Control taken)
    (reason : run.ring.isSome = true → run.Ended taken) :
    { run with recvStream := false }.Control taken :=
  ⟨control.early, nofun, fun activated _ => reason activated, control.completed, control.tasks,
    control.reader, control.idle⟩

theorem Control.goneRequest (control : run.Control taken) :
    { run with request := .gone }.Control taken :=
  ⟨fun notGone => absurd rfl notGone, control.listed, control.ended, control.completed,
    control.tasks, control.reader, control.idle⟩

theorem Ended.spawn (remover : task.isRemover = true) :
    (run.spawn task).Ended taken :=
  .inr (.inr ⟨task, by simp [ReceiverRun.spawn], remover⟩)

variable (control : run.Control taken)

include control

theorem Control.spawn (ok : run.TaskOk task) : (run.spawn task).Control taken := by
  refine control.frame ⟨id, id, fun _ sent => sent⟩ rfl rfl rfl .inl ?_ ?_ control.reader
    control.idle
  · rintro ⟨old, listed, remover⟩
    exact .inr ⟨old, mem_append_left _ listed, remover⟩
  · intro old listed
    rcases mem_append.mp listed with before | new
    · exact control.tasks old before
    · obtain rfl := mem_singleton.mp new
      exact ok

/-- A stream that is unlisted while a task is spawned that will record why. -/
theorem Control.unlistSpawn (ok : run.TaskOk task) (remover : task.isRemover = true) :
    ({ run with recvStream := false }.spawn task).Control taken :=
  (control.spawn ok).unlist fun _ => Ended.spawn remover

/-- The reader moves on without touching what it shares. -/
theorem Control.goto (ok : run.ReadOk taken phase) (idle : run.current = none) :
    (run.goto phase).Control taken := by
  refine control.frame ⟨id, id, fun _ sent => sent⟩ rfl rfl rfl .inl .inr control.tasks ?_
    fun _ => idle
  intro _ isPhase
  cases isPhase
  exact ok

theorem Control.endRead (zeroReads : List Bytes) :
    { run with pending := none, zeroReads }.Control taken :=
  control.frame ⟨id, id, fun _ sent => sent⟩ rfl rfl rfl .inl .inr control.tasks nofun
    fun some => absurd rfl some

theorem Control.replace (next : ReceiverRun) {index : Nat} {left : Option StreamTask}
    (found : run.tasks[index]? = some task)
    (grows : run.Grows { next with tasks := Slots.replace run.tasks index left })
    (sameRing : next.ring.isSome = run.ring.isSome) (sameListing : next.recvStream = run.recvStream)
    (request : next.request = run.request)
    (completed : next.receiver.completed = true →
      run.receiver.completed = true ∨ next.receiver.error.isSome = true ∨ next.ring.isSome = true)
    (remover : task.isRemover = true →
      next.receiver.error.isSome = true ∨ ∃ later, left = some later ∧ later.isRemover = true)
    (leftOk : ∀ later, left = some later → next.TaskOk later) (reader : next.pending = run.pending)
    (current : next.current = run.current) :
    { next with tasks := Slots.replace run.tasks index left }.Control taken := by
  refine control.frame grows sameRing sameListing request completed ?_ ?_ ?_ ?_
  · rintro ⟨old, listed, isRemover⟩
    by_cases same : old = task
    · subst same
      refine (remover isRemover).imp_right fun ⟨later, isLeft, laterRemover⟩ => ?_
      rw [isLeft]
      exact ⟨later, Slots.mem_replace_self found, laterRemover⟩
    · exact .inr ⟨old, Slots.mem_replace_of_ne found listed same left, isRemover⟩
  · intro old listed
    rcases Slots.mem_of_mem_replace listed with before | isLeft
    · exact (control.tasks old before).mono grows
    · exact leftOk old isLeft
  · intro phase isPhase
    exact (control.reader phase (reader ▸ isPhase)).mono grows
  · intro busy
    rw [reader] at busy
    exact current.trans (control.idle busy)

end Control

structure Inv (run : ReceiverRun) (taken : List Chunk) : Prop where
  content : Content run.sent run.ring run.current run.offset run.returned run.zeroReads taken
  control : run.Control taken

section Steps

variable {run next : ReceiverRun} {taken : List Chunk}
variable {index : Nat} {task : StreamTask}

theorem Inv.initial : initial.Inv [] := by
  refine ⟨⟨fun _ => rfl, nofun, fun _ => rfl, nofun, nofun, nofun⟩, ?_⟩
  exact ⟨fun _ => rfl, nofun, nofun, nofun, nofun, nofun, fun busy => absurd rfl busy⟩

section Inv

variable (inv : run.Inv taken)

include inv

theorem Inv.replaceOnly
    {left : Option StreamTask} (found : run.tasks[index]? = some task)
    (remover : task.isRemover = true → ∃ later, left = some later ∧ later.isRemover = true)
    (leftOk : ∀ later, left = some later → run.TaskOk later) :
    { run with tasks := Slots.replace run.tasks index left }.Inv taken :=
  ⟨inv.content, inv.control.replace run found ⟨id, id, fun _ sent => sent⟩ rfl rfl rfl .inl
    (fun isRemover => .inr (remover isRemover)) leftOk rfl rfl⟩

theorem Inv.turn
    (found : run.tasks[index]? = some task) :
    { (run.taskTurn task).1 with
      tasks := Slots.replace run.tasks index (run.taskTurn task).2 }.Inv taken := by
  have ok := inv.control.tasks task (mem_of_getElem? found)
  cases task with
  | inserting chunk =>
    obtain ⟨activated, arrived⟩ := ok
    obtain ⟨buffer, isRing⟩ := isSome_iff_exists.mp activated
    have content := inv.content
    simp only [taskTurn, isRing] at content ⊢
    refine ⟨content.insert arrived,
      inv.control.replace { run with ring := some (buffer.insertChunk chunk).1 } found
        ⟨fun _ => rfl, id, fun _ sent => sent⟩ activated.symm rfl rfl .inl nofun ?_ rfl rfl⟩
    intro later isLeft
    split at isLeft
    · cases isLeft
    · split_ifs at isLeft
      cases isLeft
      rfl
    · cases isLeft
      trivial
  | completing =>
    exact ⟨inv.content, inv.control.replace
      { run with receiver := { run.receiver with completed := true } } found
      ⟨id, id, fun _ sent => sent⟩ rfl rfl rfl (fun _ => .inr (.inr ok)) nofun nofun rfl rfl⟩
  | failing held error =>
    by_cases pending : run.request = .pending
    · simp only [taskTurn, if_pos pending]
      have gone : { run with request := .gone }.Inv taken :=
        ⟨inv.content, inv.control.goneRequest⟩
      exact gone.replaceOnly found (fun _ => ⟨_, rfl, rfl⟩)
        (fun _ isLeft => by cases isLeft; trivial)
    · simp only [taskTurn, if_neg pending]
      exact inv.replaceOnly found (fun isHeld => ⟨_, rfl, isHeld⟩)
        (fun _ isLeft => by cases isLeft; trivial)
  | removing held error =>
    by_cases isListed : run.recvStream = true
    · simp only [taskTurn, if_pos isListed]
      have replaced : { run with
          tasks := Slots.replace run.tasks index (some (.recording error)) }.Inv taken :=
        inv.replaceOnly found (fun _ => ⟨_, rfl, rfl⟩) (fun _ isLeft => by cases isLeft; trivial)
      refine ⟨replaced.content, replaced.control.unlist fun _ => ?_⟩
      exact .inr (.inr ⟨_, Slots.mem_replace_self found, rfl⟩)
    · simp only [taskTurn, if_neg isListed]
      refine inv.replaceOnly found (fun isHeld => ⟨.recording error, if_pos isHeld, rfl⟩) ?_
      intro later isLeft
      split_ifs at isLeft
      cases isLeft
      trivial
  | recording error =>
    refine ⟨inv.content, inv.control.replace
      { run with receiver := { run.receiver with error := some error } } found
      ⟨id, fun _ => rfl, fun _ sent => sent⟩ rfl rfl rfl .inl (fun _ => .inl rfl) ?_ rfl rfl⟩
    intro later isLeft
    cases isLeft
    rfl
  | completingFailure =>
    exact ⟨inv.content, inv.control.replace
      { run with receiver := { run.receiver with completed := true } } found
      ⟨id, id, fun _ sent => sent⟩ rfl rfl rfl (fun _ => .inr (.inl ok)) nofun nofun rfl rfl⟩

theorem Inv.spawn (ok : run.TaskOk task) :
    (run.spawn task).Inv taken :=
  ⟨inv.content, inv.control.spawn ok⟩

theorem Inv.unlistSpawn (ok : run.TaskOk task)
    (remover : task.isRemover = true) :
    ({ run with recvStream := false }.spawn task).Inv taken :=
  ⟨inv.content, inv.control.unlistSpawn ok remover⟩

theorem Inv.handleChunk {chunk : Chunk}
    (flagged : chunk.data = [] → chunk.isLast = true) (chunkSize : Nat) (expired : Bool) :
    (run.handleChunk chunk chunkSize expired).Inv taken := by
  have grows : run.Grows { run with sent := run.sent ++ [chunk] } :=
    ⟨id, id, fun _ listed => mem_append_left _ listed⟩
  have arrived : { run with sent := run.sent ++ [chunk] }.Inv taken :=
    ⟨inv.content.arrive flagged, inv.control.frame grows rfl rfl rfl .inl .inr
      (fun task listed => (inv.control.tasks task listed).mono grows)
      (fun phase isPhase => (inv.control.reader phase isPhase).mono grows) inv.control.idle⟩
  unfold ReceiverRun.handleChunk
  split_ifs with oversize unlisted late
  · exact arrived.spawn trivial
  · exact arrived
  · exact arrived.unlistSpawn trivial rfl
  · refine arrived.spawn ⟨?_, by simp⟩
    exact inv.control.listed (by simpa using unlisted)

theorem Inv.goto {phase : ReadPhase} (ok : run.ReadOk taken phase)
    (idle : run.current = none) : (run.goto phase).Inv taken :=
  ⟨inv.content, inv.control.goto ok idle⟩

theorem Inv.nothing (second : Bool) (idle : run.current = none) :
    (run.nothing second).Inv taken := by
  cases second with
  | false | true => exact inv.goto trivial idle

theorem Inv.readFailed : run.readFailed.Inv taken :=
  ⟨inv.content, inv.control.endRead run.zeroReads⟩

theorem Inv.readEof (idle : run.current = none)
    (last : ∃ chunk ∈ taken, chunk.isLast = true) : run.readEof.Inv taken := by
  have content := inv.content
  rw [idle] at content
  exact ⟨inv.content.report (content.fullyRead last), inv.control.endRead _⟩

/-- A flag set without an error, and a stream unlisted without one, mean that a last chunk was
taken. -/
theorem Inv.last_of_completed (completed : run.receiver.completed = true)
    (unlisted : run.recvStream = false) (noError : run.receiver.error = none)
    (noRemover : ∀ task ∈ run.tasks, task.isRemover = false) :
    ∃ chunk ∈ taken, chunk.isLast = true := by
  have activated := (inv.control.completed completed).resolve_left (by simp [noError])
  rcases inv.control.ended activated unlisted with last | failed | ⟨task, listed, remover⟩
  · exact last
  · simp [noError] at failed
  · simp [noRemover task listed] at remover

theorem Inv.tryTurn {second : Bool} {phase : TryPhase}
    (isPhase : run.pending = some (.attempt second phase))
    (orderly : phase = .loadRemoved → run.receiver.completed = true →
      run.recvStream = false ∧ run.receiver.error = none ∧
        ∀ task ∈ run.tasks, task.isRemover = false) :
    ∃ taken, (run.tryTurn second phase).Inv taken := by
  have idle : run.current = none := inv.control.idle (by simp [isPhase])
  have ok := inv.control.reader _ isPhase
  cases phase with
  | checkError | recheckError =>
    rw [ReceiverRun.tryTurn]
    split
    · exact ⟨taken, inv.readFailed⟩
    · exact ⟨taken, inv.goto trivial idle⟩
  | lookup =>
    rw [ReceiverRun.tryTurn]
    refine ⟨taken, inv.goto ?_ idle⟩
    split
    · trivial
    · trivial
  | take =>
    rw [ReceiverRun.tryTurn]
    split
    · rename_i data ring took
      obtain ⟨buffer, isRing, took⟩ := bind_eq_some_iff.mp took
      have content := inv.content
      rw [isRing, idle] at content
      obtain ⟨chunk, content⟩ := content.take took
      have grows : run.Grows
          { run with ring := some ring, pending := none, current := some data, offset := 0 } :=
        ⟨fun _ => rfl, id, fun _ sent => sent⟩
      refine ⟨taken ++ [chunk], content, ?_⟩
      refine ⟨?_, fun _ => rfl, ?_, fun _ => .inr rfl, ?_, nofun, fun busy => absurd rfl busy⟩
      · intro notGone
        have := inv.control.early notGone
        simp [isRing] at this
      · intro _ unlisted
        rcases inv.control.ended (by simp [isRing]) unlisted with ⟨last, listed, isLast⟩ | failed
        · exact .inl ⟨last, mem_append_left _ listed, isLast⟩
        · exact .inr failed
      · intro task listed
        exact (inv.control.tasks task listed).mono grows
    · exact ⟨taken, inv.goto trivial idle⟩
  | loadCompleted =>
    rw [ReceiverRun.tryTurn]
    split
    · exact ⟨taken, inv.goto trivial idle⟩
    · exact ⟨taken, inv.nothing second idle⟩
  | checkComplete =>
    rw [ReceiverRun.tryTurn]
    split
    · rename_i complete
      obtain ⟨buffer, isRing, complete⟩ := (any_eq_true _ _).mp complete
      obtain ⟨_, chunk, found, isLast⟩ :=
        (inv.content.ring buffer isRing).last_taken complete
      exact ⟨taken, inv.goto ⟨chunk, mem_of_getElem? found, isLast⟩ idle⟩
    · exact ⟨taken, inv.nothing second idle⟩
  | remove =>
    have last : ∃ chunk ∈ taken, chunk.isLast = true := ok
    have unlisted : { run with recvStream := false }.Inv taken :=
      ⟨inv.content, inv.control.unlist fun _ => .inl last⟩
    exact ⟨taken, unlisted.goto last idle⟩
  | noteComplete => exact ⟨taken, inv.readEof idle ok⟩
  | loadRemoved =>
    rw [ReceiverRun.tryTurn]
    split
    · rename_i completed
      obtain ⟨unlisted, noError, noRemover⟩ := orderly rfl completed
      exact ⟨taken, inv.readEof idle (inv.last_of_completed completed unlisted noError noRemover)⟩
    · exact ⟨taken, inv.nothing second idle⟩

/-- `fail_receiver_idle` records its error before anything else. -/
theorem Inv.fail {receiver : BlobReceiverState}
    (failed : receiver.error.isSome = true) : { run with receiver }.Inv taken := by
  have grows : run.Grows { run with receiver } := ⟨id, fun _ => failed, fun _ sent => sent⟩
  exact ⟨inv.content, inv.control.frame grows rfl rfl rfl (fun _ => .inr (.inl failed))
    (fun _ => .inl failed) (fun task listed => (inv.control.tasks task listed).mono grows)
    (fun phase isPhase => (inv.control.reader phase isPhase).mono grows) inv.control.idle⟩

theorem Inv.resume {timedOut : Bool}
    (orderly : run.Orderly (.resume timedOut)) (resumed : run.resume timedOut = some next) :
    ∃ taken, next.Inv taken := by
  obtain ⟨phase, isPhase, rfl⟩ := map_eq_some_iff.mp resumed
  have idle : run.current = none := inv.control.idle (by simp [isPhase])
  have ok := inv.control.reader phase isPhase
  cases phase with
  | start | awaitAccept | awaitChange =>
    refine ⟨taken, inv.goto ?_ idle⟩
    split
    · trivial
    · trivial
  | attempt second phase =>
    refine inv.tryTurn isPhase fun loading completed => orderly ?_ completed
    subst loading
    cases second with
    | false => exact .inl isPhase
    | true => exact .inr isPhase
  | recordIdle =>
    have recorded : { run with
        receiver := { run.receiver with error := some (.new .blobStreamIdleTimeout) } }.Inv taken :=
      inv.fail rfl
    exact ⟨taken, recorded.goto rfl idle⟩
  | completeIdle =>
    have completed : { run with receiver := { run.receiver with completed := true } }.Inv taken :=
      inv.fail ok
    exact ⟨taken, completed.goto ok idle⟩
  | removeIdle =>
    have unlisted : { run with recvStream := false }.Inv taken :=
      ⟨inv.content, inv.control.unlist fun _ => .inr (.inl ok)⟩
    exact ⟨taken, unlisted.readFailed⟩

theorem Inv.pollRead (capacity : Nat) :
    (run.pollRead capacity).Inv taken := by
  unfold ReceiverRun.pollRead
  split
  · rename_i data isCurrent
    have content := inv.content
    rw [isCurrent] at content
    have free : run.pending = none := by
      by_contra busy
      simpa [isCurrent] using inv.control.idle busy
    -- the reader holds no future, so only the chunk's bytes change hands
    have control : ∀ current offset returned zeroReads,
        { run with current, offset, returned, zeroReads }.Control taken := fun _ _ _ _ =>
      inv.control.frame ⟨id, id, fun _ sent => sent⟩ rfl rfl rfl .inl .inr inv.control.tasks
        inv.control.reader (fun busy => absurd free busy)
    have reported : Content run.sent run.ring (some data) run.offset run.returned
        (if 0 < capacity ∧ (data.drop run.offset).take capacity = [] then
          run.zeroReads ++ [run.returned] else run.zeroReads) taken := by
      split
      · rename_i empty
        exact content.report (content.fullyRead_of_empty empty.1 empty.2)
      · exact content
    obtain ⟨used, unused⟩ := reported.copy capacity
    refine ⟨?_, control _ _ _ _⟩
    by_cases finished : data.length ≤ run.offset + ((data.drop run.offset).take capacity).length
    · simpa only [if_pos finished] using used finished
    · simpa only [if_neg finished] using unused finished
  · split
    · rename_i isCurrent _
      exact inv.goto trivial isCurrent
    · exact inv

theorem Inv.step {label : Label} (orderly : run.Orderly label)
    (stepped : run.step label = some next) : ∃ taken, next.Inv taken := by
  cases label with
  | accept =>
    cases stepped
    exact ⟨taken, inv.content, inv.control.frame ⟨id, id, fun _ sent => sent⟩ rfl rfl rfl .inl .inr
      inv.control.tasks inv.control.reader inv.control.idle⟩
  | addPendingRequest =>
    obtain ⟨⟨awaiting, _⟩, isNext⟩ := ite_none_right_eq_some.mp stepped
    cases isNext
    have noRing := inv.control.early (by simp [awaiting])
    exact ⟨taken, inv.content, fun _ => noRing, inv.control.listed, inv.control.ended,
      inv.control.completed, inv.control.tasks, inv.control.reader, inv.control.idle⟩
  | takePendingRequest size =>
    obtain ⟨pending, stepped⟩ := ite_none_right_eq_some.mp stepped
    have noRing := inv.control.early (by simp [pending])
    cases size with
    | ok size =>
      cases stepped
      exact ⟨taken, inv.content, fun _ => noRing, inv.control.listed, inv.control.ended,
        inv.control.completed, inv.control.tasks, inv.control.reader, inv.control.idle⟩
    | error error =>
      cases stepped
      have gone : { run with request := .gone }.Inv taken :=
        ⟨inv.content, inv.control.goneRequest⟩
      exact ⟨taken, gone.spawn trivial⟩
  | dropPendingRequest =>
    obtain ⟨_, stepped⟩ := ite_none_right_eq_some.mp stepped
    cases stepped
    exact ⟨taken, inv.content, inv.control.goneRequest⟩
  | insertRecvStream =>
    simp only [ReceiverRun.step] at stepped
    split at stepped
    · rename_i size activating
      cases stepped
      have noRing := inv.control.early (by simp [activating])
      have content := inv.content
      rw [noRing] at content
      have grows : run.Grows
          { run with request := .gone, ring := some (.new size), recvStream := true } :=
        ⟨fun _ => rfl, id, fun _ sent => sent⟩
      exact ⟨taken, content.activate size, fun notGone => absurd rfl notGone, fun _ => rfl, nofun,
        fun _ => .inr rfl, fun task listed => (inv.control.tasks task listed).mono grows,
        fun phase isPhase => (inv.control.reader phase isPhase).mono grows, inv.control.idle⟩
    · cases stepped
  | failReceiver error | handleError error =>
    cases stepped
    exact ⟨taken, inv.spawn trivial⟩
  | handleChunk chunk chunkSize expired =>
    cases stepped
    exact ⟨taken, inv.handleChunk orderly chunkSize expired⟩
  | expire =>
    obtain ⟨_, stepped⟩ := ite_none_right_eq_some.mp stepped
    cases stepped
    exact ⟨taken, inv.unlistSpawn trivial rfl⟩
  | failAllStreams error =>
    cases stepped
    have cleared : run.clearPendingRequest.Inv taken := by
      unfold clearPendingRequest
      split_ifs
      · exact ⟨inv.content, inv.control.goneRequest⟩
      · exact inv
    split_ifs
    · exact ⟨taken, cleared.unlistSpawn trivial rfl⟩
    · exact ⟨taken, cleared⟩
  | turn index =>
    obtain ⟨task, found, rfl⟩ := map_eq_some_iff.mp stepped
    exact ⟨taken, inv.turn found⟩
  | pollRead capacity =>
    cases stepped
    exact ⟨taken, inv.pollRead capacity⟩
  | resume timedOut => exact inv.resume orderly stepped

end Inv

end Steps

/-- In every run whose steps are orderly, zero bytes are reported only once everything up to a last
chunk has been returned. -/
theorem orderly_eof_sound {run : ReceiverRun}
    (reached : (system.restrict Orderly).Reachable run) : run.EofSound := by
  have invariant : ∃ taken, run.Inv taken := by
    refine @Machine.System.Reachable.invariant _ _ _ (fun run => ∃ taken, run.Inv taken) ?_ ?_ _
      reached
    · rintro _ rfl
      exact ⟨[], .initial⟩
    · rintro _ _ _ ⟨taken, inv⟩ ⟨stepped, orderly⟩
      exact inv.step orderly stepped
  obtain ⟨taken, inv⟩ := invariant
  exact inv.content.zeroReads

def activation : List Label :=
  [.accept, .addPendingRequest, .takePendingRequest (RingSize.new 2 2), .insertRecvStream]

def readChunk : List Label :=
  [.pollRead 4, .resume false, .resume false, .resume false, .resume false, .pollRead 4]

/-- A stream of one byte, read to its end. -/
theorem orderly_eof_sound_byte : ∃ run, (system.restrict Orderly).Reachable run ∧ run.EofSound ∧
    run.zeroReads = [[7]] := by
  obtain ⟨run, reached, zeroReads⟩ :
      ∃ run, (system.restrict Orderly).Reachable run ∧ run.zeroReads = [[7]] :=
    Machine.System.exists_guarded
      (activation ++ [.handleChunk ⟨0, [7], true⟩ 2 false, .turn 0, .turn 0] ++ readChunk ++
        [.pollRead 4, .resume false, .resume false, .resume false, .resume false, .resume false,
          .resume false, .resume false, .resume false]) rfl (by decide)
  exact ⟨run, reached, orderly_eof_sound reached, zeroReads⟩

/-- An empty chunk that is not the last one makes the reader report zero bytes in the middle of the
stream. -/
theorem empty_chunk_reports_eof : ∃ run, system.Reachable run ∧ ¬ run.EofSound := by
  obtain ⟨run, reached, zeroReads, sent⟩ :
      ∃ run, system.Reachable run ∧ run.zeroReads = [[]] ∧ run.sent = [⟨0, [], false⟩] :=
    Machine.System.exists_reachable
      (activation ++ [.handleChunk ⟨0, [], false⟩ 2 false, .turn 0] ++ readChunk) rfl (by decide)
  refine ⟨run, reached, fun sound => ?_⟩
  obtain ⟨_, read⟩ := sound [] (by simp [zeroReads])
  obtain ⟨chunk, listed, isLast⟩ := read.last
  have arrived := read.sent chunk listed
  rw [sent, mem_singleton] at arrived
  rw [arrived] at isLast
  cases isLast

end ReceiverRun

end AureliaPeering.Blob
