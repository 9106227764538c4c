import AureliaPeering.Ids
import AureliaPeering.Lib.Machine

/-!
The buffer tracker that every peer of a domus shares, and the calls in progress on it.

A call is a task with a program counter between its atomic operations.  `fetch_update` is a load
followed by weak compare-exchanges until one succeeds, so that it is not atomic here either.
-/

namespace AureliaPeering.Blob

inductive BlobBufferSide where
  | outbound
  | inbound
deriving DecidableEq, Repr

structure BlobBufferTracker where
  outboundUsed : Nat
  inboundUsed : Nat
deriving DecidableEq, Repr

namespace BlobBufferTracker

def empty : BlobBufferTracker := ⟨0, 0⟩

def used (tracker : BlobBufferTracker) : BlobBufferSide → Nat
  | .outbound => tracker.outboundUsed
  | .inbound => tracker.inboundUsed

def store (tracker : BlobBufferTracker) (side : BlobBufferSide) (value : Nat) : BlobBufferTracker :=
  match side with
  | .outbound => { tracker with outboundUsed := value }
  | .inbound => { tracker with inboundUsed := value }

end BlobBufferTracker

/-- A `try_reserve_side` in progress: `current` is the value it has loaded and checked, while the
compare-exchange on it is due. -/
structure ReserveSide where
  side : BlobBufferSide
  bytes : Nat
  cap : Nat
  current : Option Nat
deriving DecidableEq, Repr

def ReserveSide.start (side : BlobBufferSide) (bytes cap : Nat) : ReserveSide :=
  ⟨side, bytes, cap, none⟩

inductive ReserveTurn where
  | running (attempt : ReserveSide)
  | finished (reserved : Bool) (tracker : BlobBufferTracker)
deriving DecidableEq, Repr

/-- The next atomic operation of a reservation, with what follows it up to the one after. -/
def ReserveSide.turn (attempt : ReserveSide) (tracker : BlobBufferTracker) : ReserveTurn :=
  match attempt.current with
  | none =>
    let current := tracker.used attempt.side
    let next := current + attempt.bytes
    -- `checked_add` fails above `u64::MAX`.
    if next > u64Max then .finished false tracker
    else if next > attempt.cap then .finished false tracker
    else .running { attempt with current := some current }
  | some current =>
    if tracker.used attempt.side = current then
      .finished true (tracker.store attempt.side (current + attempt.bytes))
    else .running { attempt with current := none }

/-- A `release_side` in progress; `underflow` is the flag its closure sets. -/
structure ReleaseSide where
  side : BlobBufferSide
  bytes : Nat
  current : Option Nat
  underflow : Bool
deriving DecidableEq, Repr

def ReleaseSide.start (side : BlobBufferSide) (bytes : Nat) : ReleaseSide :=
  ⟨side, bytes, none, false⟩

inductive ReleaseTurn where
  | running (attempt : ReleaseSide)
  | finished (underflow : Bool) (tracker : BlobBufferTracker)
deriving DecidableEq, Repr

/-- The value the closure of a release stores in place of `current`. -/
def ReleaseSide.remaining (attempt : ReleaseSide) (current : Nat) : Nat :=
  if current < attempt.bytes then 0 else current - attempt.bytes

/-- The closure runs on the value just read. -/
def ReleaseSide.observe (attempt : ReleaseSide) (current : Nat) : ReleaseSide :=
  { attempt with
    current := some current
    underflow := attempt.underflow || decide (current < attempt.bytes) }

/-- The next atomic operation of a release.  A weak compare-exchange may fail spuriously, and a
failed one returns the value to try next. -/
def ReleaseSide.turn (attempt : ReleaseSide) (tracker : BlobBufferTracker) (spurious : Bool) :
    ReleaseTurn :=
  match attempt.current with
  | none => .running (attempt.observe (tracker.used attempt.side))
  | some current =>
    if tracker.used attempt.side = current ∧ spurious = false then
      .finished attempt.underflow (tracker.store attempt.side (attempt.remaining current))
    else .running (attempt.observe (tracker.used attempt.side))

/-- What a successful reservation gives its caller. -/
structure Grant where
  side : BlobBufferSide
  bytes : Nat
deriving DecidableEq, Repr

/-- The results of the calls.  A pair reservation fails on one of the sides. -/
inductive Returned where
  | reserve (reserved : Bool)
  | pairReserved
  | pairFailed (side : BlobBufferSide)
  | release
deriving DecidableEq, Repr

inductive Call where
  | reserve (attempt : ReserveSide)
  | pairOutbound (attempt : ReserveSide) (inboundBytes inboundCap : Nat)
  | pairInbound (outboundBytes : Nat) (attempt : ReserveSide)
  | pairRollback (attempt : ReleaseSide)
  | release (attempt : ReleaseSide)
  | returned (result : Returned)
deriving DecidableEq, Repr

/-- A call with the net effect its own atomic operations have had on each counter so far, and
whether a release of it has taken the clamping branch. -/
structure Task where
  call : Call
  outboundEffect : Int
  inboundEffect : Int
  underflow : Bool
deriving DecidableEq, Repr

def Task.start (call : Call) : Task := ⟨call, 0, 0, false⟩

def Task.goto (task : Task) (call : Call) (before after : BlobBufferTracker) : Task :=
  { task with
    call
    outboundEffect := task.outboundEffect + (after.outboundUsed - before.outboundUsed : Int)
    inboundEffect := task.inboundEffect + (after.inboundUsed - before.inboundUsed : Int) }

/-- A reservation at the instant it succeeded, with the counter's value at that instant. -/
structure Reservation where
  side : BlobBufferSide
  cap : Nat
  value : Nat
deriving DecidableEq, Repr

structure Turn where
  tracker : BlobBufferTracker
  task : Task
  grants : List Grant
  reserved : List Reservation
deriving DecidableEq, Repr

def Task.stay (task : Task) (tracker : BlobBufferTracker) (call : Call) : Turn :=
  ⟨tracker, { task with call }, [], []⟩

def Task.reserved (task : Task) (before after : BlobBufferTracker) (attempt : ReserveSide)
    (call : Call) (grants : List Grant) : Turn :=
  ⟨after, task.goto call before after, grants,
    [⟨attempt.side, attempt.cap, after.used attempt.side⟩]⟩

def Task.released (task : Task) (before after : BlobBufferTracker) (underflow : Bool)
    (result : Returned) : Turn :=
  ⟨after,
    { task.goto (.returned result) before after with underflow := task.underflow || underflow },
    [], []⟩

def Task.releasing (task : Task) (tracker : BlobBufferTracker) (attempt : ReleaseSide)
    (call : Call) : Turn :=
  ⟨tracker, { task with call, underflow := task.underflow || attempt.underflow }, [], []⟩

def Task.turn (task : Task) (tracker : BlobBufferTracker) (spurious : Bool) : Option Turn :=
  match task.call with
  | .reserve attempt =>
    match attempt.turn tracker with
    | .running next => some (task.stay tracker (.reserve next))
    | .finished false _ => some (task.stay tracker (.returned (.reserve false)))
    | .finished true after =>
      some (task.reserved tracker after attempt (.returned (.reserve true))
        [⟨attempt.side, attempt.bytes⟩])
  | .pairOutbound attempt inboundBytes inboundCap =>
    match attempt.turn tracker with
    | .running next => some (task.stay tracker (.pairOutbound next inboundBytes inboundCap))
    | .finished false _ => some (task.stay tracker (.returned (.pairFailed .outbound)))
    | .finished true after =>
      some (task.reserved tracker after attempt
        (.pairInbound attempt.bytes (.start .inbound inboundBytes inboundCap)) [])
  | .pairInbound outboundBytes attempt =>
    match attempt.turn tracker with
    | .running next => some (task.stay tracker (.pairInbound outboundBytes next))
    | .finished false _ =>
      some (task.stay tracker (.pairRollback (.start .outbound outboundBytes)))
    | .finished true after =>
      some (task.reserved tracker after attempt (.returned .pairReserved)
        [⟨.outbound, outboundBytes⟩, ⟨.inbound, attempt.bytes⟩])
  | .pairRollback attempt =>
    match attempt.turn tracker spurious with
    | .running next => some (task.releasing tracker next (.pairRollback next))
    | .finished underflow after =>
      some (task.released tracker after underflow (.pairFailed .inbound))
  | .release attempt =>
    match attempt.turn tracker spurious with
    | .running next => some (task.releasing tracker next (.release next))
    | .finished underflow after => some (task.released tracker after underflow .release)
  | .returned _ => none

/-- The tracker with every call made on it, the grants that no release has been given yet, and the
reservations that have succeeded. -/
structure TrackerRun where
  tracker : BlobBufferTracker
  tasks : List Task
  grants : List Grant
  reserved : List Reservation
deriving DecidableEq, Repr

namespace TrackerRun

def initial : TrackerRun := ⟨.empty, [], [], []⟩

/-- A release is called with a grant, which no other release can then have.  `dropDuplex` is the
drop of a `TrackedDuplex`, which does not call the tracker for an empty grant. -/
inductive Label where
  | tryReserve (side : BlobBufferSide) (bytes cap : Nat)
  | tryReservePair (outboundBytes outboundCap inboundBytes inboundCap : Nat)
  | release (grant : Nat)
  | dropDuplex (grant : Nat)
  | turn (task : Nat) (spurious : Bool)
deriving DecidableEq, Repr

def call (run : TrackerRun) (call : Call) : TrackerRun :=
  { run with tasks := run.tasks ++ [.start call] }

def surrender (run : TrackerRun) (index : Nat) : TrackerRun :=
  { run with grants := run.grants.eraseIdx index }

def step (run : TrackerRun) (label : Label) : Option TrackerRun :=
  match label with
  | .tryReserve side bytes cap => some (run.call (.reserve (.start side bytes cap)))
  | .tryReservePair outboundBytes outboundCap inboundBytes inboundCap =>
    some (run.call (.pairOutbound (.start .outbound outboundBytes outboundCap)
      inboundBytes inboundCap))
  | .release index =>
    (run.grants[index]?).map fun grant =>
      (run.surrender index).call (.release (.start grant.side grant.bytes))
  | .dropDuplex index =>
    (run.grants[index]?).map fun grant =>
      if grant.bytes = 0 then run.surrender index
      else (run.surrender index).call (.release (.start grant.side grant.bytes))
  | .turn index spurious =>
    (run.tasks[index]?).bind fun task =>
      (task.turn run.tracker spurious).map fun turn =>
        { tracker := turn.tracker
          tasks := run.tasks.set index turn.task
          grants := run.grants ++ turn.grants
          reserved := run.reserved ++ turn.reserved }

def system : Machine.System TrackerRun Label := .ofStep (· = initial) step

end TrackerRun

end AureliaPeering.Blob
