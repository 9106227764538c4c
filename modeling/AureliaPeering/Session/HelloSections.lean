import AureliaPeering.Session.PeerSession

/-!
The two sides of a primary hello, section by section.

Other tasks of the same session run wherever a handshake reads an atomic flag or waits for a lock,
so what it read may be out of date when it acts.  With nothing in between, the sections amount to
`acceptInboundPrimary` and `establishOutboundPrimary`.
-/

namespace AureliaPeering.Session

open Store

/-- What the sections of a handshake read besides the session and the hello. -/
structure HelloInput where
  primaryActive : Bool
  sent : Except AureliaError Unit
  order : List SlotId

/-- Where a handshake stands.  It is with the accepting side up to the response, and with the
dialling side from then on. -/
inductive HelloPhase where
  | offered
  | heard (accepts : Bool)
  | entering
  | failing
  | clearing
  | answering (resume : Bool)
  | unanswered
  | answered (resume : Bool)
  | restarting
  | forgetting
  | concluding
  | concluded
  | rejected
deriving DecidableEq, Repr

namespace HelloPhase

def fails : HelloPhase → Bool
  | .failing | .restarting => true
  | _ => false

def clears : HelloPhase → Bool
  | .clearing | .forgetting => true
  | _ => false

/-- The last section of a side: the callis comes to life there. -/
def joins : HelloPhase → Bool
  | .answering _ | .concluding => true
  | _ => false

/-- The callis lives at the accepting end once the response is written, and at the dialling end
once the handshake is concluded. -/
def live (dials : Bool) : HelloPhase → Bool
  | .concluded => true
  | .answered _ | .restarting | .forgetting | .concluding | .rejected => !dials
  | _ => false

end HelloPhase

/-- A handshake after a section, with the completions the section has caused. -/
structure HelloTask where
  phase : HelloPhase
  effects : List CompletionEffect
  session : PeerSession

/-- The accepting side.  `accept_hello` reads the session flag and swaps it in two accesses, and
the guard before it has read the flag already. -/
def acceptSection (session : PeerSession) (reconnect : Bool) (input : HelloInput) :
    HelloPhase → Option HelloTask
  | .offered =>
    some ⟨.heard (reconnect || (!input.primaryActive && !session.active)), [], session⟩
  | .heard true =>
    some ⟨if reconnect && session.active then .answering true else .entering, [], session⟩
  | .heard false => some ⟨.answering false, [], session⟩
  | .entering =>
    some ⟨if session.active then .failing else .clearing, [], session.setActive true⟩
  | .failing =>
    let (effects, session) := session.failRestarted input.order
    some ⟨.clearing, effects, session⟩
  | .clearing => some ⟨.answering false, [], session.clearDedupe⟩
  | .answering resume =>
    match input.sent with
    | .error _ => some ⟨.unanswered, [], session⟩
    | .ok _ => some ⟨.answered resume, [], session.setActive true⟩
  | _ => none

/-- The dialling side, from the response on. -/
def establishSection (session : PeerSession) (reconnect : Bool) (input : HelloInput) :
    HelloPhase → Option HelloTask
  | .answered resume =>
    some ⟨if reconnect && resume then .concluding
      else if reconnect && input.primaryActive then .concluding
      else if reconnect then .restarting
      else if resume then .rejected
      else .concluding, [], session⟩
  | .restarting =>
    let (effects, session) := session.failRestarted input.order
    some ⟨.forgetting, effects, session⟩
  | .forgetting => some ⟨.concluding, [], session.clearDedupe⟩
  | .concluding => some ⟨.concluded, [], session.setActive true⟩
  | _ => none

def helloSection (dials : Bool) (session : PeerSession) (reconnect : Bool) (input : HelloInput)
    (phase : HelloPhase) : Option HelloTask :=
  if dials then establishSection session reconnect input phase
  else acceptSection session reconnect input phase

variable {dials reconnect : Bool} {session : PeerSession} {input : HelloInput}
  {phase : HelloPhase} {task : HelloTask}

/-- A section fails the tracked messages, empties the dedupe state, or at most activates the
session. -/
theorem helloSection_cases
    (taken : helloSection dials session reconnect input phase = some task) :
    (phase.fails = true ∧ (task.effects, task.session) = session.failRestarted input.order) ∨
    (phase.clears = true ∧ task.effects = [] ∧ task.session = session.clearDedupe) ∨
    (task.effects = [] ∧ ∃ active, task.session = session.setActive active) := by
  have same : session = session.setActive session.active := rfl
  cases dials with
  | false =>
    cases phase with
    | heard accepts =>
      cases accepts <;> cases taken <;> exact .inr (.inr ⟨rfl, _, same⟩)
    | answering resume =>
      simp only [helloSection, acceptSection, Bool.false_eq_true, if_false] at taken
      split at taken <;> cases taken
      · exact .inr (.inr ⟨rfl, _, same⟩)
      · exact .inr (.inr ⟨rfl, _, rfl⟩)
    | offered =>
      cases taken
      exact .inr (.inr ⟨rfl, _, same⟩)
    | entering =>
      cases taken
      exact .inr (.inr ⟨rfl, _, rfl⟩)
    | failing =>
      cases taken
      exact .inl ⟨rfl, rfl⟩
    | clearing =>
      cases taken
      exact .inr (.inl ⟨rfl, rfl, rfl⟩)
    | unanswered | answered | restarting | forgetting | concluding | concluded | rejected =>
      cases taken
  | true =>
    cases phase with
    | answered resume =>
      cases taken
      exact .inr (.inr ⟨rfl, _, same⟩)
    | restarting =>
      cases taken
      exact .inl ⟨rfl, rfl⟩
    | forgetting =>
      cases taken
      exact .inr (.inl ⟨rfl, rfl, rfl⟩)
    | concluding =>
      cases taken
      exact .inr (.inr ⟨rfl, _, rfl⟩)
    | offered | heard | entering | failing | clearing | answering | unanswered | concluded
    | rejected => cases taken

/-- A section brings the callis to life at its own end only, and only as the last of its side. -/
theorem helloSection_live
    (taken : helloSection dials session reconnect input phase = some task) :
    (task.phase.live dials = true → phase.joins = true) ∧
      (task.phase.live (!dials) = true → phase.live (!dials) = true) := by
  cases dials with
  | false =>
    cases phase with
    | heard accepts =>
      cases accepts <;> cases taken <;> grind [HelloPhase.live]
    | answering resume =>
      simp only [helloSection, acceptSection, Bool.false_eq_true, if_false] at taken
      split at taken <;> cases taken <;> simp [HelloPhase.live, HelloPhase.joins]
    | offered | entering | failing | clearing =>
      cases taken
      grind [HelloPhase.live]
    | unanswered | answered | restarting | forgetting | concluding | concluded | rejected =>
      cases taken
  | true =>
    cases phase with
    | answered | restarting | forgetting | concluding =>
      cases taken
      grind [HelloPhase.live, HelloPhase.joins]
    | offered | heard | entering | failing | clearing | answering | unanswered | concluded
    | rejected => cases taken

/-- The sections of a side with nothing in between. -/
def alone (dials reconnect : Bool) (input : HelloInput) : Nat → HelloTask → HelloTask
  | 0, task => task
  | fuel + 1, task =>
    match helloSection dials task.session reconnect input task.phase with
    | none => task
    | some next =>
      alone dials reconnect input fuel { next with effects := task.effects ++ next.effects }

/-- Alone, the accepting side does what `acceptInboundPrimary` says. -/
theorem accept_alone (session : PeerSession) (reconnect : Bool) (input : HelloInput) :
    let handshake := acceptInboundPrimary session input.primaryActive .primary reconnect
      input.sent input.order
    let task := alone false reconnect input 6 ⟨.offered, [], session⟩
    task.effects = handshake.effects ∧ task.session = handshake.session ∧
      ∀ resume, task.phase = .answered resume ↔ handshake.result = .ok resume := by
  obtain ⟨primaryActive, sent, order⟩ := input
  cases active : session.active <;> cases reconnect <;> cases primaryActive <;> cases sent <;>
  simp [alone, helloSection, acceptSection, acceptInboundPrimary, PeerSession.acceptHello, active,
    PeerSession.setActive, PeerSession.clearDedupe]

/-- Alone, the dialling side does what `establishOutboundPrimary` says. -/
theorem establish_alone (session : PeerSession) (reconnect resume : Bool) (input : HelloInput) :
    let handshake := establishOutboundPrimary session input.primaryActive reconnect
      (.ok ⟨.primary, resume, false⟩) input.order
    let task := alone true reconnect input 4 ⟨.answered resume, [], session⟩
    task.effects = handshake.effects ∧ task.session = handshake.session ∧
      (task.phase = .concluded ↔ handshake.result.isOk = true) := by
  obtain ⟨primaryActive, sent, order⟩ := input
  cases reconnect <;> cases resume <;> cases primaryActive <;>
  simp [alone, helloSection, establishSection, establishOutboundPrimary,
    PeerSession.handleHelloResponse, PeerSession.setActive, PeerSession.clearDedupe, Except.isOk,
    Except.toBool]

end AureliaPeering.Session
