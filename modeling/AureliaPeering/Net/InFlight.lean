import AureliaPeering.Net.System

/-!
The frames a side may still bring to the other: those its store retains, those its transmitters
hold, and those on the wire.  Only a send and a response bring in a new one.
-/

namespace AureliaPeering.Net

open Collections Store Session

def itemFrame : RetainedItem → OutboundFrame
  | .ack peerMsgId => .ack peerMsgId
  | .error _ frame => frame
  | .tracked outbound => .message outbound.message

theorem claimToFrame_of_item {claim : RetainedClaim} {item : RetainedItem}
    (same : claim.item = writeItem item) : claimToFrame claim = itemFrame item := by
  cases item <;> simp [claimToFrame, same, writeItem, itemFrame]

namespace Endpoint

def Holds (endpoint : Endpoint) (frame : OutboundFrame) : Prop :=
  (∃ item, endpoint.dispatch.Stores item ∧ itemFrame item = frame) ∨
    ∃ outstanding ∈ endpoint.claims,
      outstanding.written = false ∧ claimToFrame outstanding.claim = frame

/-- A step of an endpoint keeps its store sound and adds only frames that meet `New`. -/
structure Emits (before after : Endpoint) (New : OutboundFrame → Prop) : Prop where
  sound : after.dispatch.Invariant
  holds : ∀ frame, after.Holds frame → before.Holds frame ∨ New frame

def Nothing (_ : OutboundFrame) : Prop := False

variable {after before endpoint next : Endpoint} {op : Op} {output : Output}

theorem perform_eq (performed : endpoint.perform op = some (output, next)) :
    ∃ dispatch, Store.step endpoint.dispatch op = .ok (output, dispatch) ∧
      next = { endpoint with
        inbound := { endpoint.inbound with
          session := { endpoint.inbound.session with dispatch := dispatch } }
        succeeded := endpoint.succeeded ++ successes output } := by
  unfold perform at performed
  split at performed
  · cases performed
  · rename_i result dispatch stepped
    simp only [Option.some.injEq, Prod.mk.injEq] at performed
    obtain ⟨rfl, rfl⟩ := performed
    exact ⟨dispatch, stepped, rfl⟩

theorem perform_emits {New : OutboundFrame → Prop}
    (performed : endpoint.perform op = some (output, next))
    (sound : endpoint.dispatch.Invariant) (ordered : op.Ordered endpoint.dispatch)
    (allowed : ∀ item, op.inserted = some item → New (itemFrame item)) :
    Emits endpoint next New := by
  obtain ⟨dispatch, stepped, rfl⟩ := perform_eq performed
  have taken : Store.system.Step endpoint.dispatch (op, output) dispatch := ⟨ordered, stepped⟩
  refine ⟨(Store.step_invariant sound taken).1, fun frame held => ?_⟩
  rcases held with ⟨item, stored, rfl⟩ | held
  · rcases stores_of_step sound ordered stepped stored with old | inserted
    · exact .inl (.inl ⟨item, old, rfl⟩)
    · exact .inr (allowed item inserted)
  · exact .inl (.inr held)

theorem Emits.of_claims_subset {New : OutboundFrame → Prop}
    (sound : before.dispatch.Invariant) (same : after.dispatch = before.dispatch)
    (claims : ∀ outstanding ∈ after.claims, outstanding.written = false →
      outstanding ∈ before.claims) : Emits before after New := by
  refine ⟨same ▸ sound, fun frame held => .inl ?_⟩
  rcases held with ⟨item, stored, frame_eq⟩ | ⟨outstanding, listed, unwritten, frame_eq⟩
  · exact .inl ⟨item, same ▸ stored, frame_eq⟩
  · exact .inr ⟨outstanding, claims outstanding listed unwritten, unwritten, frame_eq⟩

theorem Emits.after_quiet {middle : Endpoint} {New : OutboundFrame → Prop}
    (quiet : ∀ frame, middle.Holds frame → before.Holds frame) (emits : Emits middle after New) :
    Emits before after New :=
  ⟨emits.sound, fun frame held => (emits.holds frame held).imp_left (quiet frame)⟩

theorem allowed_of_none {New : OutboundFrame → Prop} (none_inserted : op.inserted = none)
    (item : RetainedItem) (inserted : op.inserted = some item) : New (itemFrame item) := by
  cases none_inserted.symm.trans inserted

theorem inserted_of_internal (allowed : internal op = true) : op.inserted = none := by
  cases op <;> first | rfl | cases allowed

def NextMessage (endpoint : Endpoint) (frame : OutboundFrame) : Prop :=
  ∃ message : PeerMessage, frame = .message message ∧
    message.peerMsgId = endpoint.sent % u32Limit

def FirstResponse (endpoint : Endpoint) (frame : OutboundFrame) : Prop :=
  ∃ outcome rest, endpoint.inbound.outcomes = outcome :: rest ∧
    match outcome with
    | .ack peerMsgId => frame = .ack peerMsgId
    | .error peerMsgId _ => ∃ payload, frame = errorFrame peerMsgId payload
    | .skip => False

end Endpoint

end AureliaPeering.Net
