import AureliaPeering.Peer.CallisRun
import AureliaPeering.Peer.Effects

/-!
The pools of callis along the runs of a peer.

A callis whose `ConnectionClosed` has been processed is in neither pool, in every run that takes
`Connected` before it.  Taken after it, `Connected` enters a handle that nothing removes.
-/

namespace AureliaPeering.Peer

open Collections Store PeerStateMachine List Option

namespace BlobCallisPool

def Mentions (pool : BlobCallisPool) (id : CallisId) : Prop :=
  id ∈ pool.order ∨ (pool.handles.lookup id).isSome ∨ (pool.settings.lookup id).isSome

section Mentions

variable {pool : BlobCallisPool} {id other : CallisId}

theorem not_mentions_new : ¬new.Mentions id := by
  rintro (listed | held | held)
  · cases listed
  · simp [new] at held
  · simp [new] at held

theorem Mentions.of_addCallis {handle : CallisHandle} {settings : BlobCallisSettings}
    (mentions : (pool.addCallis handle settings).Mentions id) :
    pool.Mentions id ∨ id = handle.id := by
  rcases mentions with listed | held | held
  · simp only [addCallis] at listed
    split at listed
    · exact .inl (.inl listed)
    · rcases mem_append.mp listed with old | new
      · exact .inl (.inl old)
      · exact .inr (mem_singleton.mp new)
  · rw [addCallis, HashMap.lookup_insert_eq] at held
    split at held
    · rename_i same
      exact .inr same
    · exact .inl (.inr (.inl held))
  · rw [addCallis, HashMap.lookup_insert_eq] at held
    split at held
    · rename_i same
      exact .inr same
    · exact .inl (.inr (.inr held))

theorem Mentions.of_removeCallis (nodup : pool.order.Nodup)
    (mentions : (pool.removeCallis other).Mentions id) : pool.Mentions id ∧ id ≠ other := by
  rcases mentions with listed | held | held
  · obtain ⟨apart, inOrder⟩ := (nodup.mem_erase_iff).mp listed
    exact ⟨.inl inOrder, apart⟩
  · rw [removeCallis, HashMap.lookup_erase_eq] at held
    split at held
    · cases held
    · rename_i apart
      exact ⟨.inr (.inl held), apart⟩
  · rw [removeCallis, HashMap.lookup_erase_eq] at held
    split at held
    · cases held
    · rename_i apart
      exact ⟨.inr (.inr held), apart⟩

theorem hasCallis_addCallis (pool : BlobCallisPool) (handle : CallisHandle)
    (settings : BlobCallisSettings) : (pool.addCallis handle settings).hasCallis = true := by
  have listed : handle.id ∈ (pool.addCallis handle settings).order := by
    simp only [addCallis]
    split
    · assumption
    · exact mem_append_right _ (mem_singleton_self _)
  unfold hasCallis
  rw [Bool.not_eq_true', isEmpty_eq_false_iff]
  exact ne_nil_of_mem listed

theorem nodup_addCallis (nodup : pool.order.Nodup) (handle : CallisHandle)
    (settings : BlobCallisSettings) : (pool.addCallis handle settings).order.Nodup := by
  simp only [addCallis]
  split
  · exact nodup
  · rename_i unlisted
    exact nodup.append (nodup_singleton _) (by simpa using unlisted)

theorem selectLoop_shrinks (turns : Nat) (nodup : pool.order.Nodup) :
    (selectLoop turns pool).2.order.Nodup ∧
      ∀ id, (selectLoop turns pool).2.Mentions id → pool.Mentions id := by
  induction turns generalizing pool with
  | zero => exact ⟨nodup, fun _ mentions => mentions⟩
  | succ turns ih =>
    unfold selectLoop
    split
    · exact ⟨nodup, fun _ mentions => mentions⟩
    · rename_i head rest isOrder
      rw [isOrder] at nodup
      have tail := nodup.of_cons
      split
      · obtain ⟨kept, back⟩ := @ih
          { pool with order := rest, settings := pool.settings.erase head } tail
        refine ⟨kept, fun id mentions => ?_⟩
        rcases back id mentions with listed | held | held
        · exact .inl (isOrder ▸ mem_cons_of_mem _ listed)
        · exact .inr (.inl held)
        · rw [HashMap.lookup_erase_eq] at held
          split at held
          · cases held
          · exact .inr (.inr held)
      · obtain ⟨kept, back⟩ := @ih
          { pool with order := rest, handles := pool.handles.erase head } tail
        refine ⟨kept, fun id mentions => ?_⟩
        rcases back id mentions with listed | held | held
        · exact .inl (isOrder ▸ mem_cons_of_mem _ listed)
        · rw [HashMap.lookup_erase_eq] at held
          split at held
          · cases held
          · exact .inr (.inl held)
        · exact .inr (.inr held)
      · split
        · have whole : pool.order.Nodup := isOrder ▸ nodup
          obtain ⟨kept, back⟩ := @ih (pool.removeCallis head) (whole.erase head)
          exact ⟨kept, fun id mentions => ((back id mentions).of_removeCallis whole).1⟩
        · have turned : (rest ++ [head]).Perm pool.order :=
            isOrder ▸ perm_append_singleton head rest
          refine ⟨turned.nodup_iff.mpr (isOrder ▸ nodup), ?_⟩
          rintro id (listed | held)
          · exact .inl (turned.mem_iff.mp listed)
          · exact .inr held

end Mentions

end BlobCallisPool

namespace PeerContext

def primaryIds (ctx : PeerContext) : List CallisId := ctx.state.primary.map (·.id)

theorem SameCallis.primaryIds {before after : PeerContext} (same : before.SameCallis after) :
    after.primaryIds = before.primaryIds := by
  unfold PeerContext.primaryIds
  rw [same.primary]

/-- The pools of a context hold no id twice. -/
structure Distinct (ctx : PeerContext) : Prop where
  primary : ctx.primaryIds.Nodup
  order : ctx.pool.order.Nodup

structure Shrinks (before after : PeerContext) : Prop where
  primary : after.primaryIds.Sublist before.primaryIds
  pool : ∀ id, after.pool.Mentions id → before.pool.Mentions id
  order : after.pool.order.Nodup

section Shrinks

variable {ctx after : PeerContext}

theorem shrinks_of_pools (nodup : ctx.pool.order.Nodup)
    (primary : after.state.primary = ctx.state.primary) (pool : after.pool = ctx.pool) :
    ctx.Shrinks after where
  primary := by simp [PeerContext.primaryIds, primary]
  pool := fun _ mentions => pool ▸ mentions
  order := pool ▸ nodup

theorem Shrinks.same {final : PeerContext} (shrinks : ctx.Shrinks after)
    (same : after.SameCallis final) : ctx.Shrinks final where
  primary := same.primaryIds ▸ shrinks.primary
  pool := fun id mentions => shrinks.pool id (same.pool ▸ mentions)
  order := same.pool ▸ shrinks.order

theorem Shrinks.distinct (shrinks : ctx.Shrinks after) (distinct : ctx.Distinct) :
    after.Distinct :=
  ⟨distinct.primary.sublist shrinks.primary, shrinks.order⟩

theorem shrinks_removePrimaryHandle (nodup : ctx.pool.order.Nodup) (id : CallisId) :
    ctx.Shrinks (ctx.removePrimaryHandle id) := by
  unfold removePrimaryHandle
  split
  · exact ⟨eraseP_sublist.map _, fun _ mentions => mentions, nodup⟩
  · exact ⟨.refl _, fun _ mentions => mentions, nodup⟩

theorem notMem_removePrimaryHandle (distinct : ctx.Distinct) (id : CallisId) :
    id ∉ (ctx.removePrimaryHandle id).primaryIds := by
  unfold removePrimaryHandle
  split
  · have erased : (ctx.state.primary.eraseP (·.id = id)).map (·.id) = ctx.primaryIds.erase id := by
      rw [PeerContext.primaryIds, erase_eq_eraseP, eraseP_map]
      congr 2
      funext handle
      simp [Bool.beq_eq_decide_eq, eq_comm]
    simp only [PeerContext.primaryIds, erased]
    exact distinct.primary.not_mem_erase
  · rename_i unlisted
    intro listed
    obtain ⟨handle, held, rfl⟩ := mem_map.mp listed
    exact unlisted (any_eq_true.mpr ⟨handle, held, by simp⟩)

theorem shrinks_removeCallis (nodup : ctx.pool.order.Nodup) (id : CallisId) :
    ctx.Shrinks { ctx with pool := ctx.pool.removeCallis id } :=
  ⟨.refl _, fun _ mentions => (mentions.of_removeCallis nodup).1, nodup.erase id⟩

theorem shrinks_drain {state : PeerState} {primaryActive : Bool} {store : RetainedStore}
    {sessionClosing : Bool} {agenda : List StoreMark}
    (listed : (state.primary.map (·.id)).Sublist ctx.primaryIds) :
    ctx.Shrinks ⟨state, primaryActive, .new, store, sessionClosing, agenda⟩ :=
  ⟨listed, fun _ mentions => absurd mentions BlobCallisPool.not_mentions_new, nodup_nil⟩

end Shrinks

variable {ctx : PeerContext}

theorem shrinks_prepare (nodup : ctx.pool.order.Nodup) (update : PeerStateUpdate) :
    ctx.Shrinks (ctx.prepare update) := by
  unfold prepare
  split
  · exact shrinks_removePrimaryHandle nodup _
  · exact ⟨nil_sublist _, fun _ mentions => mentions, nodup⟩
  · exact shrinks_removePrimaryHandle nodup _
  · exact shrinks_removeCallis nodup _
  · exact shrinks_drain (.refl _)
  · exact shrinks_removeCallis nodup _
  · exact shrinks_of_pools nodup rfl rfl

/-- Every update but `Connected` only takes callis out of the pools. -/
theorem shrinks_executeUpdate (nodup : ctx.pool.order.Nodup)
    (update : PeerStateUpdate) (other : ∀ kind info, update ≠ .connected kind info)
    (inputs : DialInputs) (order : List SlotId) :
    ctx.Shrinks (ctx.executeUpdate update inputs order) := by
  obtain ⟨primary, pool⟩ := @executeUpdate_callis ctx update inputs order other
  have shrinks := shrinks_prepare nodup update
  refine ⟨?_, pool ▸ shrinks.pool, pool ▸ shrinks.order⟩
  rw [primaryIds, primary]
  exact shrinks.primary

theorem notMem_executePrimaryClosed (distinct : ctx.Distinct) (id : CallisId)
    (inputs : DialInputs) : id ∉ (ctx.executePrimaryClosed id inputs).1.primaryIds := by
  have callis := @executeUpdate_callis ctx (.connectionClosed .primary id) inputs [] nofun
  rw [primaryIds, show (ctx.executePrimaryClosed id inputs).1.state.primary = _ from callis.1]
  exact notMem_removePrimaryHandle distinct id

theorem not_mentions_executeBlobClosed (distinct : ctx.Distinct)
    (id : CallisId) (inputs : DialInputs) :
    ¬(ctx.executeBlobClosed id inputs).1.pool.Mentions id := by
  have callis := @executeUpdate_callis ctx (.connectionClosed .blob id) inputs [] nofun
  rw [show (ctx.executeBlobClosed id inputs).1.pool = _ from callis.2]
  exact fun mentions => (mentions.of_removeCallis distinct.order).2 rfl

/-- `Connected` adds at most its own callis, to the pool of its kind. -/
structure Enters (before after : PeerContext) (kind : CallisKind) (id : CallisId) : Prop where
  primary : after.primaryIds.Sublist before.primaryIds ∨
    kind = .primary ∧ ∃ kept, kept.Sublist before.primaryIds ∧ after.primaryIds = kept ++ [id]
  pool : ∀ other, after.pool.Mentions other →
    before.pool.Mentions other ∨ kind = .blob ∧ other = id
  order : after.pool.order.Nodup

theorem enters_connected (nodup : ctx.pool.order.Nodup) (kind : CallisKind)
    (info : ConnectionInfo) (inputs : DialInputs) (order : List SlotId) :
    ctx.Enters (ctx.executeUpdate (.connected kind info) inputs order) kind info.handle.id := by
  cases kind with
  | primary =>
    unfold executeUpdate execute executeConnectedPrimary
    dsimp only
    split
    · refine ⟨.inl ?_, fun _ mentions => .inl mentions, nodup⟩
      simp [PeerContext.primaryIds]
    · split
      · refine ⟨.inr ⟨rfl, [], nil_sublist _, rfl⟩, fun _ mentions => ?_, nodup_nil⟩
        exact absurd mentions BlobCallisPool.not_mentions_new
      · refine ⟨.inr ⟨rfl, ctx.primaryIds, .refl _, ?_⟩, fun _ mentions => .inl mentions,
          nodup⟩
        simp [PeerContext.primaryIds]
  | blob =>
    have listed : ∀ pool, ({ ctx with
        state := (connectedBlob ctx.state info.blobSettings.isSome).1
        pool } : PeerContext).primaryIds.Sublist ctx.primaryIds := by
      intro pool
      simp [PeerContext.primaryIds]
    unfold executeUpdate execute executeConnectedBlob
    dsimp only
    split
    · exact ⟨.inl (listed _), fun _ mentions => .inl mentions, nodup⟩
    · split
      · exact ⟨.inl (listed _), fun _ mentions => .inl mentions, nodup⟩
      · refine ⟨.inl (listed _), fun other mentions => ?_,
          BlobCallisPool.nodup_addCallis nodup _ _⟩
        rcases mentions.of_addCallis with old | new
        · exact .inl old
        · exact .inr ⟨rfl, new⟩

end PeerContext

namespace PeerRun

def Live (run : PeerRun) (kind : CallisKind) (id : CallisId) : Prop :=
  ∃ task, run.tasks.lookup id = some task ∧ task.kind = kind ∧ task.connected = true ∧
    task.closed = false

/-- The pools hold live callis only; the blob pool, where `blobs` holds. -/
structure Pooled (blobs : Prop) (run : PeerRun) : Prop where
  distinct : run.ctx.Distinct
  primary : ∀ id ∈ run.ctx.primaryIds, run.Live .primary id
  pool : blobs → ∀ id, run.ctx.pool.Mentions id → run.Live .blob id

section Pooled

variable {blobs : Prop} {run next : PeerRun}

variable {kind : CallisKind} {id : CallisId} {changed : CallisTask} {inputs : DialInputs}
  {order : List SlotId} {now : Instant} {tasks : HashMap CallisId CallisTask}

theorem Live.insert {other : CallisId} {ctx : PeerContext} (live : run.Live kind other)
    (kept : other = id → changed.kind = kind ∧ changed.connected = true ∧
      changed.closed = false) :
    Live ⟨ctx, run.tasks.insert id changed⟩ kind other := by
  obtain ⟨task, found, isLive⟩ := live
  by_cases same : other = id
  · exact ⟨changed, by rw [same]; exact AList.lookup_insert _, kept same⟩
  · exact ⟨task, by simp [same, found], isLive⟩

variable (pooled : run.Pooled blobs)

include pooled

theorem Pooled.of_shrinks (shrinks : run.ctx.Shrinks next.ctx)
    (live : ∀ kind id, run.Live kind id → next.Live kind id) : next.Pooled blobs where
  distinct := shrinks.distinct pooled.distinct
  primary := fun id listed => live _ _ (pooled.primary id (shrinks.primary.subset listed))
  pool := fun isBlobs id mentions =>
    live _ _ (pooled.pool isBlobs id (shrinks.pool id mentions))

theorem Pooled.of_pools (primary : next.ctx.state.primary = run.ctx.state.primary)
    (pool : next.ctx.pool = run.ctx.pool) (tasks : next.tasks = run.tasks) : next.Pooled blobs := by
  refine pooled.of_shrinks (PeerContext.shrinks_of_pools pooled.distinct.order primary pool) ?_
  rintro _ _ ⟨task, found, isLive⟩
  exact ⟨task, tasks ▸ found, isLive⟩

theorem Pooled.of_task {task : CallisTask} (found : run.tasks.lookup id = some task)
    (kind : changed.kind = task.kind) (connected : changed.connected = task.connected)
    (closed : changed.closed = task.closed) (store : RetainedStore) :
    Pooled blobs ⟨{ run.ctx with store }, run.tasks.insert id changed⟩ := by
  refine pooled.of_shrinks (PeerContext.shrinks_of_pools pooled.distinct.order rfl rfl)
    fun kind other live => live.insert ?_
  rintro rfl
  obtain ⟨_, isHeld, _⟩ := live
  obtain rfl := some.inj (isHeld.symm.trans found)
  rwa [kind, connected, closed]

/-- `Connected` before `ConnectionClosed`: the callis it enters is live. -/
theorem Pooled.connected {info : ConnectionInfo}
    (reported : run.report (.connected kind info) = some tasks)
    (early : kind = .primary ∨ blobs →
      (run.tasks.lookup info.handle.id).all (fun task => !task.closed) = true) :
    Pooled blobs ⟨(run.ctx.executeUpdate (.connected kind info) inputs order).updateImpairedSince
      now, tasks⟩ := by
  obtain ⟨task, found, allowed⟩ := bind_eq_some_iff.mp reported
  obtain ⟨⟨isKind, unconnected⟩, ⟨⟩⟩ := ite_none_right_eq_some.mp allowed
  have entered := PeerContext.enters_connected pooled.distinct.order kind info inputs order
  have live {held : CallisKind} {id : CallisId} (before : run.Live held id) {ctx : PeerContext} :
      Live ⟨ctx, run.tasks.insert info.handle.id { task with connected := true }⟩ held id := by
    refine before.insert ?_
    rintro rfl
    obtain ⟨same, isSame, heldKind, _, unclosed⟩ := before
    cases isSame.symm.trans found
    exact ⟨heldKind, rfl, unclosed⟩
  have new (counts : kind = .primary ∨ blobs) {ctx : PeerContext} :
      Live ⟨ctx, run.tasks.insert info.handle.id { task with connected := true }⟩ kind
        info.handle.id := by
    have unclosed : task.closed = false := by simpa [found] using early counts
    exact ⟨_, AList.lookup_insert _, isKind, rfl, unclosed⟩
  -- The callis was not connected before, so that it is in no pool yet.
  have unlisted : info.handle.id ∉ run.ctx.primaryIds := by
    intro listed
    obtain ⟨same, isSame, _, isConnected, _⟩ := pooled.primary _ listed
    cases isSame.symm.trans found
    cases unconnected.symm.trans isConnected
  refine ⟨⟨?_, entered.order⟩, ?_, ?_⟩
  · rcases entered.primary with kept | ⟨_, kept, sublist, isIds⟩
    · exact pooled.distinct.primary.sublist kept
    · refine isIds ▸ (pooled.distinct.primary.sublist sublist).append (nodup_singleton _) ?_
      simpa using fun listed => unlisted (sublist.subset listed)
  · intro id listed
    rcases entered.primary with kept | ⟨rfl, kept, sublist, isIds⟩
    · exact live (pooled.primary id (kept.subset listed))
    · have cases : id ∈ kept ++ [info.handle.id] := isIds ▸ listed
      rcases mem_append.mp cases with old | added
      · exact live (pooled.primary id (sublist.subset old))
      · obtain rfl := mem_singleton.mp added
        exact new (.inl rfl)
  · intro isBlobs id mentions
    rcases entered.pool id mentions with old | ⟨rfl, rfl⟩
    · exact live (pooled.pool isBlobs id old)
    · exact new (.inr isBlobs)

/-- `ConnectionClosed` takes its callis out of the pool of its kind. -/
theorem Pooled.connectionClosed (reported : run.report (.connectionClosed kind id) = some tasks) :
    Pooled blobs
      ⟨(run.ctx.executeUpdate (.connectionClosed kind id) inputs order).updateImpairedSince
      now, tasks⟩ := by
  obtain ⟨task, found, allowed⟩ := bind_eq_some_iff.mp reported
  obtain ⟨⟨isKind, _⟩, ⟨⟩⟩ := ite_none_right_eq_some.mp allowed
  have shrinks := (PeerContext.shrinks_executeUpdate pooled.distinct.order
    (.connectionClosed kind id) (by simp) inputs order).same
    (PeerContext.sameCallis_updateImpairedSince _ now)
  have kind_of {held : CallisKind} (live : run.Live held id) : held = kind := by
    obtain ⟨_, isSame, heldKind, _⟩ := live
    cases isSame.symm.trans found
    exact heldKind.symm.trans isKind
  refine ⟨shrinks.distinct pooled.distinct, fun other listed => ?_,
    fun isBlobs other mentions => ?_⟩
  · have live := pooled.primary other (shrinks.primary.subset listed)
    refine live.insert ?_
    rintro rfl
    obtain rfl := kind_of live
    exact absurd listed (PeerContext.notMem_executePrimaryClosed pooled.distinct other inputs)
  · have live := pooled.pool isBlobs other (shrinks.pool other mentions)
    refine live.insert ?_
    rintro rfl
    obtain rfl := kind_of live
    exact absurd mentions
      (PeerContext.not_mentions_executeBlobClosed pooled.distinct other inputs)

omit pooled

/-- The report of a connection reaches the state task before the report of its end. -/
def ReportsInOrder (run : PeerRun) : PeerLabel → Prop
  | .update (.connected _ info) _ _ _ =>
    (run.tasks.lookup info.handle.id).all (fun task => !task.closed) = true
  | _ => True

instance (label : PeerLabel) : Decidable (run.ReportsInOrder label) := by
  unfold ReportsInOrder
  split <;> infer_instance

theorem Pooled.step {label : PeerLabel} (pooled : run.Pooled blobs)
    (stepped : run.step label = some next)
    (orderly : ∀ kind info inputs order now,
      label = .update (.connected kind info) inputs order now → kind = .primary ∨ blobs →
        (run.tasks.lookup info.handle.id).all (fun task => !task.closed) = true) :
    next.Pooled blobs := by
  cases label with
  | spawn kind id =>
    obtain ⟨fresh, ⟨⟩⟩ := ite_none_left_eq_some.mp stepped
    refine pooled.of_shrinks (PeerContext.shrinks_of_pools pooled.distinct.order rfl rfl)
      fun kind other live => live.insert ?_
    rintro rfl
    obtain ⟨task, found, _⟩ := live
    simp [found] at fresh
  | claim id | finish id =>
    obtain ⟨task, found, allowed⟩ := bind_eq_some_iff.mp stepped
    obtain ⟨_, ⟨⟩⟩ := ite_none_right_eq_some.mp allowed
    refine pooled.of_task found ?_ ?_ ?_ _ <;> rfl
  | complete id result =>
    obtain ⟨task, found, claimed⟩ := bind_eq_some_iff.mp stepped
    obtain ⟨claim, _, rfl⟩ := map_eq_some_iff.mp claimed
    refine pooled.of_task found ?_ ?_ ?_ _ <;> rfl
  | storeOp op =>
    obtain ⟨_, performed⟩ := ite_none_right_eq_some.mp stepped
    obtain ⟨result, _, rfl⟩ := map_eq_some_iff.mp performed
    exact pooled.of_pools rfl rfl rfl
  | update update inputs order now =>
    obtain ⟨_, taken⟩ := ite_none_right_eq_some.mp stepped
    obtain ⟨_, reported, rfl⟩ := map_eq_some_iff.mp taken
    cases update with
    | connected kind info => exact pooled.connected reported (orderly _ _ _ _ _ rfl)
    | connectionClosed kind id => exact pooled.connectionClosed reported
    | _ =>
      cases reported
      exact pooled.of_shrinks
        ((PeerContext.shrinks_executeUpdate pooled.distinct.order _ (by simp) inputs order).same
          (PeerContext.sameCallis_updateImpairedSince _ now)) fun _ _ live => live
  | mark =>
    simp only [PeerRun.step] at stepped
    split at stepped
    · cases stepped
    · cases stepped
      exact pooled.of_pools rfl rfl rfl
  | teardown order now =>
    obtain ⟨_, ⟨⟩⟩ := ite_none_right_eq_some.mp stepped
    exact pooled.of_shrinks (PeerContext.shrinks_drain (nil_sublist _)) fun _ _ live => live
  | drainCallis =>
    obtain ⟨_, ⟨⟩⟩ := ite_none_right_eq_some.mp stepped
    exact pooled.of_shrinks (PeerContext.shrinks_drain (.refl _)) fun _ _ live => live
  | selectCallis =>
    cases stepped
    obtain ⟨order, back⟩ := BlobCallisPool.selectLoop_shrinks run.ctx.pool.order.length
      pooled.distinct.order
    exact pooled.of_shrinks ⟨.refl _, back, order⟩ fun _ _ live => live
  | beginClose =>
    cases stepped
    exact pooled.of_pools rfl rfl rfl

theorem pooled_new (capacities : RetainedCapacities) (now : Instant) :
    (PeerRun.new capacities now).Pooled blobs := by
  refine ⟨⟨nodup_nil, nodup_nil⟩, ?_, ?_⟩
  · intro id listed
    cases listed
  · intro _ id mentions
    exact absurd mentions BlobCallisPool.not_mentions_new

theorem reachable_pooled {capacities : RetainedCapacities}
    (reached : ((system capacities now).restrict ReportsInOrder).Reachable run) :
    run.Pooled True := by
  refine reached.invariant ?_ ?_
  · rintro _ rfl
    exact pooled_new capacities now
  · rintro _ _ _ pooled ⟨stepped, orderly⟩
    refine pooled.step stepped ?_
    rintro _ _ _ order now rfl _
    exact orderly

end Pooled

/-- A callis that has ended is in no pool, where its two reports come in order. -/
theorem closed_callis_unlisted {capacities : RetainedCapacities} {now : Instant} {run : PeerRun}
    (reached : ((system capacities now).restrict ReportsInOrder).Reachable run) {id : CallisId}
    {task : CallisTask} (found : run.tasks.lookup id = some task) (closed : task.closed = true) :
    id ∉ run.ctx.primaryIds ∧ ¬run.ctx.pool.Mentions id := by
  have pooled := reachable_pooled reached
  have dead (kind : CallisKind) : ¬run.Live kind id := by
    rintro ⟨_, isSame, _, _, unclosed⟩
    cases isSame.symm.trans found
    cases closed.symm.trans unclosed
  exact ⟨fun listed => dead _ (pooled.primary id listed),
    fun mentions => dead _ (pooled.pool trivial id mentions)⟩

def connectedInfo (id : CallisId) (tx : CallisTx) (settings : Option BlobCallisSettings) :
    ConnectionInfo :=
  ⟨⟨id, tx⟩, false, [], settings⟩

def quietInputs : DialInputs := ⟨false, true, true, false⟩

theorem closed_callis_unlisted_ended :
    ∃ run task, ((system ⟨1, 1, 1, 1⟩ 0).restrict ReportsInOrder).Reachable run ∧
      run.tasks.lookup 1 = some task ∧ task.closed = true ∧
      1 ∉ run.ctx.primaryIds ∧ ¬run.ctx.pool.Mentions 1 := by
  obtain ⟨run, reached, isClosed⟩ :
      ∃ run, ((system ⟨1, 1, 1, 1⟩ 0).restrict ReportsInOrder).Reachable run ∧
        (run.tasks.lookup 1).any (·.closed) = true :=
    Machine.System.exists_guarded [.spawn .primary 1,
      .update (.connected .primary (connectedInfo 1 .primary none)) quietInputs [] 0,
      .finish 1, .update (.connectionClosed .primary 1) quietInputs [] 0] rfl (by decide)
  obtain ⟨task, found, closed⟩ := (any_eq_true _ _).mp isClosed
  exact ⟨run, task, reached, found, closed, closed_callis_unlisted reached found closed⟩

/-- Taken after the report of their end, the reports of two connections enter both pools for
good. -/
theorem late_connected_listed :
    ∃ run first second, (system ⟨1, 1, 1, 1⟩ 0).Reachable run ∧
      run.tasks.lookup 1 = some first ∧ first.connected = true ∧ first.closed = true ∧
      1 ∈ run.ctx.primaryIds ∧
      run.tasks.lookup 2 = some second ∧ second.connected = true ∧ second.closed = true ∧
      2 ∈ run.ctx.pool.order := by
  obtain ⟨run, reached, listed, ordered, first, second⟩ :
      ∃ run, (system ⟨1, 1, 1, 1⟩ 0).Reachable run ∧ 1 ∈ run.ctx.primaryIds ∧
        2 ∈ run.ctx.pool.order ∧
        (run.tasks.lookup 1).any (fun task => task.connected && task.closed) = true ∧
        (run.tasks.lookup 2).any (fun task => task.connected && task.closed) = true :=
    Machine.System.exists_reachable [.spawn .primary 1, .spawn .blob 2, .finish 1, .finish 2,
      .update (.connectionClosed .primary 1) quietInputs [] 0,
      .update (.connectionClosed .blob 2) quietInputs [] 0,
      .update (.connected .primary (connectedInfo 1 .primary none)) quietInputs [] 0,
      .update (.connected .blob (connectedInfo 2 .blob (some ⟨4, 2⟩))) quietInputs [] 0] rfl
      (by decide)
  simp only [Bool.and_eq_true, Option.any_eq_true] at first second
  obtain ⟨first, isFirst, connected, closed⟩ := first
  obtain ⟨second, isSecond, connected', closed'⟩ := second
  exact ⟨run, first, second, reached, isFirst, connected, closed, listed, isSecond, connected',
    closed', ordered⟩

end PeerRun

end AureliaPeering.Peer
