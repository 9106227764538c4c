import AureliaPeering.Callis.Transmitter

/-!
The byte stream of a primary callis is made of frames.

Every write but the last is whole, or no byte of it got through, as long as no write of a claimed
item is cancelled in the middle of its frame.  The loop goes on after such a write, and the peer
reads the next header from the wrong place.
-/

namespace AureliaPeering.Callis

open Store Wire List

/-- The write is of the whole frame, and one that succeeded is not torn. -/
theorem sendFrame_spec (header : WireHeader) (payload : Bytes) (outcome : WriteOutcome) :
    (sendFrame header payload outcome).1.record = header.encode ++ payload ∧
      ((sendFrame header payload outcome).2 = .done (.ok ()) →
        ¬ (sendFrame header payload outcome).1.Torn) := by
  cases outcome with
  | written => exact ⟨rfl, fun _ torn => absurd torn.2 (Nat.lt_irrefl _)⟩
  | failed | timedOut => exact ⟨rfl, by simp [sendFrame]⟩

structure Sends (writes : List FrameWrite) (result : Timed) : Prop where
  single : writes.length ≤ 1
  frames : ∀ write ∈ writes, IsFrame write.record
  whole : result = .done (.ok ()) → ∀ write ∈ writes, ¬ write.Torn

theorem sends_of_sendFrame {header : WireHeader} {payload : Bytes} (outcome : WriteOutcome)
    (frame : IsFrame (header.encode ++ payload)) :
    Sends [(sendFrame header payload outcome).1] (sendFrame header payload outcome).2 := by
  obtain ⟨record_eq, whole⟩ := sendFrame_spec header payload outcome
  refine ⟨le_rfl, fun write listed => ?_, fun succeeded write listed => ?_⟩
  · rw [mem_singleton.mp listed, record_eq]
    exact frame
  · rw [mem_singleton.mp listed]
    exact whole succeeded

theorem sendControlFrame_sends (msgType : MessageType) (flags : UInt16)
    (peerMsgId : PeerMessageId) (payload : Bytes) (outcome : WriteOutcome) :
    Sends (sendControlFrame msgType flags peerMsgId payload outcome).1
      (sendControlFrame msgType flags peerMsgId payload outcome).2 := by
  unfold sendControlFrame
  split
  · exact ⟨Nat.zero_le _, by simp, by simp⟩
  · rename_i header built
    exact sends_of_sendFrame outcome (isFrame_control built)

theorem sendOutboundFrame_sends (frame : OutboundFrame) (outcome : WriteOutcome) :
    Sends (sendOutboundFrame frame outcome).1 (sendOutboundFrame frame outcome).2 := by
  unfold sendOutboundFrame
  split
  · exact ⟨Nat.zero_le _, by simp, by simp⟩
  · rename_i header payload built
    exact sends_of_sendFrame outcome (isFrame_outbound built).1

theorem timedOut_not_torn {frame : OutboundFrame} {count : Nat}
    (sound : count = 0 ∨ frameLen frame ≤ count) :
    ∀ write ∈ (sendOutboundFrame frame (.timedOut count)).1, ¬ write.Torn := by
  intro write listed
  unfold sendOutboundFrame at listed
  split at listed
  · cases listed
  · rename_i header payload built
    obtain rfl := mem_singleton.mp listed
    rintro ⟨some_put, short⟩
    rw [sendFrame, (isFrame_outbound built).2] at short
    rcases sound with rfl | whole
    · exact Nat.lt_irrefl 0 some_put
    · exact Nat.not_lt.mpr whole short

namespace Transmitter

/-- No write of a claimed item is cancelled by its deadline when some but not all bytes of its
frame have reached the stream. -/
def Punctual (state : Transmitter) : Event → Prop
  | .write _ (.timedOut count) =>
    ∀ lease, state.phase = .write lease → count = 0 ∨ frameLen (claimToFrame lease) ≤ count
  | _ => True

def Truncated (state : Transmitter) : Prop := ∃ write ∈ state.writes, write.Torn

structure Invariant (state : Transmitter) : Prop where
  frames : ∀ write ∈ state.writes, IsFrame write.record
  earlier : ∀ write ∈ state.writes.dropLast, ¬ write.Torn
  running : state.phase ≠ .stopped → ¬ state.Truncated

variable {state next : Transmitter} {event : Event}

/-- A step that writes nothing and does not leave `stopped`. -/
theorem Invariant.congr (inv : state.Invariant) (writes : next.writes = state.writes)
    (stays : state.phase = .stopped → next.phase = .stopped) : next.Invariant where
  frames := writes ▸ inv.frames
  earlier := writes ▸ inv.earlier
  running going := by
    rw [Truncated, writes]
    exact inv.running fun stopped => going (stays stopped)

theorem Invariant.log (inv : state.Invariant) (running : state.phase ≠ .stopped)
    {sent : List FrameWrite} {result : Timed} (sends : Sends sent result)
    (writes : next.writes = state.writes ++ sent)
    (whole : next.phase ≠ .stopped → ∀ write ∈ sent, ¬ write.Torn) : next.Invariant := by
  have sound := inv.running running
  refine ⟨?_, ?_, ?_⟩
  · intro write listed
    rw [writes] at listed
    rcases mem_append.mp listed with old | new
    · exact inv.frames write old
    · exact sends.frames write new
  · intro write listed
    rw [writes] at listed
    have old : write ∈ state.writes := by
      match sent, sends.single with
      | [], _ => exact mem_of_mem_dropLast (by simpa using listed)
      | [last], _ => rwa [dropLast_concat] at listed
    exact fun torn => sound ⟨write, old, torn⟩
  · rintro going ⟨write, listed, torn⟩
    rw [writes] at listed
    rcases mem_append.mp listed with old | new
    · exact sound ⟨write, old, torn⟩
    · exact whole going write new torn

theorem prepareDispatch_writes (state : Transmitter) (now : Instant) (peerMsgId : PeerMessageId) :
    (state.prepareDispatch now peerMsgId).2.writes = state.writes := by
  unfold prepareDispatch
  split
  · rfl
  · split
    · rfl
    · split <;> rfl

theorem prepare_writes (state : Transmitter) (lease : RetainedClaim) (now : Instant) :
    (state.prepare lease now).writes = state.writes := by
  unfold prepare
  split
  · rfl
  · split
    · rfl
    · rename_i peerMsgId _
      have kept := state.prepareDispatch_writes now peerMsgId
      split
      · rename_i prepared
        rw [prepared] at kept
        exact kept
      · rename_i prepared
        rw [prepared] at kept
        exact kept

theorem claimNext_writes (state : Transmitter) : state.claimNext.writes = state.writes := by
  unfold claimNext
  simp only
  split <;> rfl

theorem Invariant.takeCloseIntent (inv : state.Invariant) (running : state.phase ≠ .stopped)
    (outcome : WriteOutcome) : (state.takeCloseIntent outcome).Invariant := by
  unfold Transmitter.takeCloseIntent
  split
  · exact inv.log running (sendControlFrame_sends msgClose 0 0 [] outcome) rfl
      fun going => absurd rfl going
  · exact inv.congr rfl fun stopped => absurd stopped running

theorem Invariant.writeLease (inv : state.Invariant) {lease : RetainedClaim} (now : Instant)
    {outcome : WriteOutcome} (writing : state.phase = .write lease)
    (punctual : state.Punctual (.write now outcome)) :
    (state.writeLease lease now outcome).Invariant := by
  have running : state.phase ≠ .stopped := by simp [writing]
  have sends := sendOutboundFrame_sends (claimToFrame lease) outcome
  unfold Transmitter.writeLease
  simp only
  split
  · rename_i succeeded
    exact inv.log running sends rfl fun _ => sends.whole succeeded
  · exact inv.log running sends rfl fun going => absurd rfl going
  · rename_i elapsed
    refine inv.log running sends rfl fun _ => ?_
    -- Only a write that the deadline cancelled elapses.
    cases outcome with
    | timedOut count => exact timedOut_not_torn (punctual lease writing)
    | written | failed =>
      unfold sendOutboundFrame at elapsed
      split at elapsed <;> cases elapsed

theorem Invariant.tick (inv : state.Invariant) (running : state.phase ≠ .stopped) (now : Instant)
    (keepaliveInterval : Nat) (outcome : WriteOutcome) :
    (state.tick now keepaliveInterval outcome).Invariant := by
  have sends := sendControlFrame_sends msgKeepalive 0 0 [] outcome
  unfold Transmitter.tick
  split
  · exact inv.congr rfl fun stopped => absurd stopped running
  · split
    · exact inv.congr rfl fun stopped => absurd stopped running
    · simp only
      split
      · rename_i succeeded
        exact inv.log running sends rfl fun _ => sends.whole succeeded
      · exact inv.log running sends rfl fun going => absurd rfl going

theorem Invariant.step (inv : state.Invariant) (taken : state.step event = some next)
    (punctual : state.Punctual event) : next.Invariant := by
  cases event with
  | store op =>
    simp only [Transmitter.step] at taken
    split at taken
    · cases taken
      exact inv.congr rfl id
    · cases taken
  | setCloseIntent | setClosing =>
    cases taken
    exact inv.congr rfl id
  | takeCloseIntent outcome =>
    simp only [Transmitter.step, Option.ite_none_right_eq_some] at taken
    obtain ⟨top, taken⟩ := taken
    cases taken
    exact inv.takeCloseIntent (by simp [top]) outcome
  | claimNext =>
    simp only [Transmitter.step, Option.ite_none_right_eq_some] at taken
    obtain ⟨claiming, taken⟩ := taken
    cases taken
    exact inv.congr state.claimNext_writes fun stopped => by simp [claiming] at stopped
  | prepare now =>
    simp only [Transmitter.step] at taken
    split at taken
    · rename_i lease claimed
      cases taken
      exact inv.congr (state.prepare_writes lease now) fun stopped => by simp [claimed] at stopped
    · cases taken
  | write now outcome =>
    simp only [Transmitter.step] at taken
    split at taken
    · rename_i lease writing
      cases taken
      exact inv.writeLease now writing punctual
    · cases taken
  | wake | shutdown =>
    simp only [Transmitter.step, Option.ite_none_right_eq_some] at taken
    obtain ⟨selecting, taken⟩ := taken
    cases taken
    exact inv.congr rfl fun stopped => by simp [selecting] at stopped
  | tick now keepaliveInterval outcome =>
    simp only [Transmitter.step, Option.ite_none_right_eq_some] at taken
    obtain ⟨selecting, taken⟩ := taken
    cases taken
    exact inv.tick (by simp [selecting]) now keepaliveInterval outcome

theorem new_invariant (callisId : CallisId) (dispatch : RetainedStore) (now : Instant) :
    (new callisId dispatch now).Invariant where
  frames := by simp [new]
  earlier := by simp [new]
  running _ := by simp [new, Truncated]

theorem reachable_invariant (reached : (system.restrict Punctual).Reachable state) :
    state.Invariant :=
  reached.invariant
    (by
      rintro _ ⟨callisId, dispatch, now, rfl⟩
      exact new_invariant callisId dispatch now)
    (fun _ _ _ inv taken => inv.step taken.1 taken.2)

/-- The loop writes no more once it has stopped. -/
theorem step_stopped (stopped : state.phase = .stopped) (taken : state.step event = some next) :
    next.writes = state.writes ∧ next.phase = .stopped := by
  cases event with
  | store op =>
    simp only [step] at taken
    split at taken
    · cases taken
      exact ⟨rfl, stopped⟩
    · cases taken
  | setCloseIntent | setClosing =>
    cases taken
    exact ⟨rfl, stopped⟩
  | takeCloseIntent | claimNext | prepare | write | wake | shutdown | tick =>
    simp [step, stopped] at taken

theorem run_stopped {later : Transmitter} {events : List Event} (stopped : state.phase = .stopped)
    (run : system.Run state events later) : later.writes = state.writes :=
  (@Machine.System.Run.preserves _ _ system
    (fun reached => reached.writes = state.writes ∧ reached.phase = .stopped)
    (fun _ _ _ holds taken =>
      let ⟨same, still⟩ := step_stopped holds.2 taken
      ⟨same.trans holds.1, still⟩) _ _ _ run ⟨rfl, stopped⟩).1

/-- In every punctual run the bytes on the callis are frames, with at most one truncated frame at
the end, after which nothing is written, whatever happens then. -/
theorem punctual_stream_framed (reached : (system.restrict Punctual).Reachable state) :
    Framing.Framed IsFrame state.stream ∧
      (state.Truncated → ∀ events later, system.Run state events later →
        later.stream = state.stream) := by
  have inv := reachable_invariant reached
  refine ⟨Framing.framed_stream inv.frames inv.earlier, fun truncated events later run => ?_⟩
  have stopped : state.phase = .stopped := by
    by_contra running
    exact inv.running running truncated
  exact congrArg Framing.stream (run_stopped stopped run)

/-- The steps that meet `Punctual` because no claimed item is written. -/
def idleStep (state : Transmitter) : Event → Option Transmitter
  | .write .. => none
  | event => state.step event

theorem idleStep_punctual (taken : state.idleStep event = some next) :
    (system.restrict Punctual).Step state event next := by
  cases event with
  | write => cases taken
  | store | setCloseIntent | setClosing | takeCloseIntent | claimNext | prepare | wake | shutdown
  | tick => exact ⟨taken, trivial⟩

def emptyDispatch : RetainedStore := RetainedStore.new ⟨4, 4, 4, 4⟩ 0

/-- A keepalive is cancelled after five bytes. -/
def cutKeepalive : List Event :=
  [.takeCloseIntent .written, .claimNext, .tick 1000 1 (.timedOut 5)]

theorem punctual_stream_framed_cutKeepalive :
    ∃ state, Machine.exec idleStep (new 1 emptyDispatch 0) cutKeepalive = some state ∧
      state.stream = [0, 1, 0, 0, 0] ∧ Framing.Framed IsFrame [0, 1, 0, 0, 0] := by
  obtain ⟨state, ran, stream_eq⟩ :
      ∃ state, Machine.exec idleStep (new 1 emptyDispatch 0) cutKeepalive = some state ∧
        state.stream = [0, 1, 0, 0, 0] := ⟨_, rfl, by decide⟩
  have initial : (system.restrict Punctual).Reachable (new 1 emptyDispatch 0) :=
    .start ⟨1, emptyDispatch, 0, rfl⟩
  have reached := initial.exec (fun _ _ _ taken => idleStep_punctual taken) cutKeepalive ran
  exact ⟨state, ran, stream_eq, stream_eq ▸ (punctual_stream_framed reached).1⟩

/-- Two acknowledgements; the write of the first is cancelled after one byte. -/
def cutAck : List Event :=
  [.store (.insertAck 0 100 0), .store (.insertAck 1 100 0),
    .takeCloseIntent .written, .claimNext, .prepare 0, .write 0 (.timedOut 1),
    .takeCloseIntent .written, .claimNext, .prepare 0, .write 0 .written]

/-- After the cancelled write the loop goes on, and the next frame starts inside the first. -/
theorem cancelled_write_breaks_framing :
    ¬ ∀ state, system.Reachable state → Framing.Framed IsFrame state.stream := by
  intro framed
  obtain ⟨state, ran, rest, stream_eq⟩ :
      ∃ state, Machine.exec step (new 1 emptyDispatch 0) cutAck = some state ∧
        ∃ rest, state.stream = 0 :: 0 :: rest := ⟨_, rfl, _, rfl⟩
  have initial : system.Reachable (new 1 emptyDispatch 0) := .start ⟨1, emptyDispatch, 0, rfl⟩
  obtain ⟨records, _, split, whole, tail⟩ :=
    framed state (initial.exec (fun _ _ _ taken => taken) cutAck ran)
  rw [stream_eq] at split
  cases records with
  | cons first others =>
    obtain ⟨content, starts⟩ := (whole first mem_cons_self).starts
    rw [starts] at split
    cases split
  | nil =>
    rcases tail with rfl | ⟨_, is_frame, ⟨_, completes⟩, _⟩
    · cases split
    · obtain ⟨content, starts⟩ := is_frame.starts
      rw [flatten_nil, nil_append] at split
      rw [← split, starts] at completes
      cases completes

end Transmitter

end AureliaPeering.Callis
