import AureliaPeering.Store.Dispatch

/-!
The loops of the store as sequences of small moves.

A walk that removes items vacates slots one after the other, and `claim_next` tries queues one after
the other.  A property of the whole operation then follows from what a single move keeps.
-/

namespace AureliaPeering.Store.RetainedStore

def Vacates (store next : RetainedStore) : Prop :=
  ∃ id item, store.removeBySlot id = some (item, next)

def Tries (callisId : CallisId) (store next : RetainedStore) : Prop :=
  ∃ lane replay, (store.claimFromQueue lane replay callisId).2 = next

open Relation (ReflTransGen)

theorem removeSlots_vacates (slots : List SlotId) (store : RetainedStore) :
    ReflTransGen Vacates store (removeSlots slots store).2 := by
  induction slots generalizing store with
  | nil => exact .refl
  | cons slot rest ih =>
    unfold removeSlots
    split
    · exact ih store
    · rename_i item next removed
      exact .head ⟨slot, item, removed⟩ (ih next)

theorem removeLiveKeys_vacates (keys : List DeadlineKey) (store : RetainedStore) :
    ReflTransGen Vacates store (removeLiveKeys keys store).2 := by
  induction keys generalizing store with
  | nil => exact .refl
  | cons key rest ih =>
    unfold removeLiveKeys
    split
    · split
      · exact ih store
      · rename_i item next removed
        exact .head ⟨key.slot, item, removed⟩ (ih next)
    · exact ih store

theorem completeOne_vacates (store : RetainedStore) (peerMsgId : PeerMessageId)
    (result : Except AureliaError Unit) :
    ReflTransGen Vacates store (store.completeOne peerMsgId result).2 := by
  unfold completeOne
  split
  · exact .refl
  · rename_i slot listed
    split
    · exact .refl
    · rename_i removed
      exact .single ⟨slot, _, removed⟩
    · rename_i removed
      exact .single ⟨slot, _, removed⟩

theorem claimLane_tries (store : RetainedStore) (lane : RetainedLane) (callisId : CallisId) :
    ReflTransGen (Tries callisId) store (store.claimLane lane callisId).2 := by
  unfold claimLane
  split
  · exact .refl
  · split
    · exact .single ⟨lane, false, rfl⟩
    · split
      · rename_i claim next claimed
        exact .single ⟨lane, true, by rw [claimed]⟩
      · rename_i next missed
        apply ReflTransGen.head (b := next)
        · exact ⟨lane, true, by rw [missed]⟩
        · exact .single ⟨lane, false, rfl⟩

theorem claimLanes_tries (callisId : CallisId) (lanes : List RetainedLane)
    (store : RetainedStore) :
    ReflTransGen (Tries callisId) store (claimLanes callisId lanes store).2 := by
  induction lanes generalizing store with
  | nil => exact .refl
  | cons lane rest ih =>
    have tried := claimLane_tries store lane callisId
    unfold claimLanes
    split
    · rename_i claim next claimed
      rw [claimed] at tried
      exact tried
    · rename_i next missed
      rw [missed] at tried
      exact tried.trans (ih next)

end AureliaPeering.Store.RetainedStore
