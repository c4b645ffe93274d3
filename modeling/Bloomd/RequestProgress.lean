import Bloomd.CrashLogic.Progress
import Bloomd.Dispatch

/-! Every handler returns unless one call is interrupted for ever, and what it
replies once it has begun its work is short and rejects nothing. -/

namespace Bloomd

open CrashLogic Prog

/-- An answer other than an interruption settles a call. -/
abbrev Returns (prog : Sys α) (good : α → Prop) : Prop := Prog.Returns (· ≠ Answer.interrupted) prog good

theorem returns_anyCall (effect : Answer → World → α × World) : Returns (call effect) fun _ => True :=
  returns_call fun _ _ => trivial

theorem returns_attempt (effect : World → Except Errno α × World) : Returns (attempt effect) fun _ => True :=
  returns_call fun _ _ => trivial

section Log

theorem returns_writeAll (path buf : Bytes) : Returns (writeAll path buf) fun _ => True := by
  apply returns_loop List.length
  intro rest world
  by_cases done : rest = []
  · left
    exact ⟨Except.ok (), fun answers => by simp only [done, ↓reduceIte]; rfl⟩
  · right
    intro answer
    have some : 0 < rest.length := List.length_pos_iff.mpr done
    simp only [done, ↓reduceIte, bind_apply, sysWrite, call]
    cases answer with
    | count n =>
      by_cases none : min n rest.length = 0
      · refine ⟨.inr (.error .epipe), _, fun answers => by simp only [none, ↓reduceIte]; rfl, ?_⟩
        intro next same
        cases same
      · refine ⟨.inl (rest.drop (min n rest.length)), _,
          fun answers => by simp only [none, ↓reduceIte]; rfl, ?_⟩
        rintro next ⟨⟩
        simp only [List.length_drop]
        omega
    | interrupted =>
      refine ⟨.inl rest, world, fun answers => rfl, ?_⟩
      rintro next ⟨⟩
      exact ⟨le_rfl, fun settled => absurd rfl settled⟩
    | fail fault =>
      refine ⟨.inr _, world, fun answers => rfl, ?_⟩
      intro next same
      cases same
    | ok =>
      refine ⟨.inl (rest.drop rest.length), _,
        fun answers => by simp only [Nat.ne_of_gt some, ↓reduceIte]; rfl, ?_⟩
      rintro next ⟨⟩
      simp only [List.length_drop]
      omega
    | time now =>
      refine ⟨.inl (rest.drop rest.length), _,
        fun answers => by simp only [Nat.ne_of_gt some, ↓reduceIte]; rfl, ?_⟩
      rintro next ⟨⟩
      simp only [List.length_drop]
      omega

theorem returns_removePathIfExists (effect : World → Except Errno Unit × World) :
    Returns (removePathIfExists (attempt effect)) fun _ => True := by
  apply returns_bind (returns_attempt effect)
  intro removed _
  split <;> exact returns_pure trivial

theorem returns_logSync (fd : Option Bytes) : Returns (logSync fd) fun _ => True := by
  cases fd with
  | none => exact returns_pure trivial
  | some path => exact returns_attempt _

theorem returns_logBufferAppend (fd : Option Bytes) (buf : Bytes) (digest : Digest) :
    Returns (logBufferAppend fd buf digest) fun _ => True := by
  cases fd with
  | none => exact returns_pure trivial
  | some path =>
    simp only [logBufferAppend]
    split
    · exact returns_pure trivial
    · split
      · apply returns_bind (returns_writeAll path buf)
        intro written _
        split <;> exact returns_pure trivial
      · exact returns_pure trivial

theorem returns_logBufferFlush (fd : Option Bytes) (buf : Bytes) (sync : Bool) :
    Returns (logBufferFlush fd buf sync) fun _ => True := by
  cases fd with
  | none => exact returns_pure trivial
  | some path =>
    apply returns_bind (returns_writeAll path buf)
    intro written _
    split
    · exact returns_pure trivial
    · split
      · apply returns_bind (returns_logSync (some path))
        intro synced _
        exact returns_pure trivial
      · exact returns_pure trivial

theorem returns_logTruncate (fd : Option Bytes) (length : Nat) (sync : Bool) :
    Returns (logTruncate fd length sync) fun _ => True := by
  cases fd with
  | none => exact returns_pure trivial
  | some path =>
    apply returns_bind (returns_attempt _)
    intro truncated _
    split
    · exact returns_pure trivial
    · split
      · exact returns_logSync (some path)
      · exact returns_pure trivial

theorem returns_logDelete (path : Bytes) : Returns (logDelete path) fun _ => True :=
  returns_removePathIfExists _

end Log

section Failures

/-- A failure whose text fits the message buffer -/
def Briefly : Except Failure α → Prop
  | .ok _ => True
  | .error failure => failure.message.length ≤ 255

theorem length_errbuf (message : String) : (errbuf message).length ≤ 255 := by
  simp only [errbuf, String.length_ofList, List.length_take]
  exact Nat.min_le_left _ _

theorem returns_withFailure (what : String) (effect : World → Except Errno α × World) :
    Returns (withFailure what (attempt effect)) Briefly := by
  apply returns_bind (returns_attempt effect)
  intro outcome _
  split
  · exact returns_pure trivial
  · exact returns_pure (length_errbuf _)

theorem returns_bpfCreateMap (capacity hashes : Nat) : Returns (bpfCreateMap capacity hashes) Briefly := by
  unfold bpfCreateMap
  split
  · exact returns_pure (by simp only [Briefly]; decide)
  · split
    · exact returns_pure (by simp only [Briefly]; decide)
    · exact returns_withFailure _ _

theorem returns_bpfCheckDigest (map : Nat) (digest : Digest) : Returns (bpfCheckDigest map digest) Briefly := by
  apply returns_bind (returns_anyCall _)
  intro looked _
  split
  · exact returns_pure trivial
  · split
    · exact returns_pure trivial
    · exact returns_pure (length_errbuf _)

theorem returns_bpfUnpin (path : Bytes) : Returns (bpfUnpin path) Briefly := by
  apply returns_bind (returns_removePathIfExists _)
  intro removed _
  split
  · exact returns_pure trivial
  · exact returns_pure (length_errbuf _)

theorem returns_abandonTemp (temp : Bytes) (errno : Errno) : Returns (abandonTemp temp errno) fun _ => True := by
  apply returns_bind (returns_attempt _)
  intro removed _
  exact returns_pure trivial

theorem returns_inspect (view : World → α) : Returns (Prog.inspect view) fun _ => True :=
  ⟨fun _ => trivial, fun world _ _ => ⟨0, view world, world, fun _ => rfl⟩⟩

theorem returns_metaWriteAtomic (metadata : FilterMeta) :
    Returns (metaWriteAtomic metadata) fun _ => True := by
  unfold metaWriteAtomic
  split
  · exact returns_pure trivial
  · apply returns_bind (returns_inspect World.pid)
    intro pid _
    dsimp only
    split
    · exact returns_pure trivial
    · apply returns_bind (returns_attempt _)
      intro created _
      split
      · exact returns_pure trivial
      · apply returns_bind (returns_anyCall _)
        intro filled _
        split
        · exact returns_abandonTemp _ _
        · apply returns_bind (returns_attempt _)
          intro synced _
          split
          · exact returns_abandonTemp _ _
          · apply returns_bind (returns_attempt _)
            intro renamed _
            split
            · exact returns_abandonTemp _ _
            · apply returns_bind (returns_attempt _)
              intro opened _
              split
              · exact returns_pure trivial
              · apply returns_bind (returns_attempt _)
                intro flushed _
                exact returns_pure trivial

theorem returns_metaDelete (path : Bytes) : Returns (metaDelete path) fun _ => True :=
  returns_removePathIfExists _

end Failures

section Adding

/-- The statuses of a request that was turned away -/
def Status.rejects : Status → Bool
  | .badRequest | .tooLarge | .name | .notFound | .exists => true
  | _ => false

/-- A reply to a request whose work was begun -/
def Reply.Served : Reply → Prop
  | .ok body => body.length ≤ 2 + maxBatchItems
  | .error status _ message => status ≠ .ok ∧ status.rejects = false ∧ message.length ≤ 255

/-- A reply that reports a failure of work that was begun -/
def Reply.Failed : Reply → Prop
  | .ok _ => False
  | .error status _ message => status ≠ .ok ∧ status.rejects = false ∧ message.length ≤ 255

theorem Reply.Failed.served {reply : Reply} (failed : reply.Failed) : reply.Served := by
  cases reply with
  | ok body => exact failed.elim
  | error status code message => exact failed

/-- A step that ends a handler early reports a failure. -/
def EndsFailed : Except Reply α → Prop
  | .ok _ => True
  | .error reply => reply.Failed

theorem returns_openFilterLog (filter : Filter) (truncate : Bool) :
    Returns (openFilterLog filter truncate) fun result => Briefly result.1 := by
  unfold openFilterLog logOpen
  cases truncate <;>
  · apply returns_bind (returns_attempt _)
    intro opened _
    split
    · exact returns_pure (length_errbuf _)
    · apply returns_bind (returns_anyCall _)
      intro now _
      exact returns_pure trivial

theorem returns_updateFilterMetaState (filter : Filter) (hasData logClean : Bool) :
    Returns (updateFilterMetaState filter hasData logClean) fun result => Briefly result.1 := by
  apply returns_bind (returns_metaWriteAtomic _)
  intro written _
  split
  · exact returns_pure (by simp only [Briefly]; decide)
  · exact returns_pure trivial

theorem returns_ensureFilterDurable (filter : Filter) :
    Returns (ensureFilterDurable filter) fun result => Briefly result.1 := by
  unfold ensureFilterDurable
  split
  · split
    · exact returns_openFilterLog filter false
    · exact returns_pure trivial
  · apply returns_bind (returns_withFailure _ _)
    intro pinned brief
    split
    · exact returns_pure brief
    · apply returns_bind (returns_openFilterLog filter true)
      rintro ⟨opened, filter⟩ brief
      dsimp only
      split
      · apply returns_bind (returns_bpfUnpin _)
        intro _ _
        exact returns_pure brief
      · apply returns_bind (returns_updateFilterMetaState filter true true)
        rintro ⟨updated, filter⟩ brief
        dsimp only
        split
        · apply returns_bind (returns_logDelete _)
          intro _ _
          apply returns_bind (returns_bpfUnpin _)
          intro _ _
          exact returns_pure brief
        · exact returns_pure trivial

theorem returns_markFilterLogDirty (filter : Filter) :
    Returns (markFilterLogDirty filter) fun result => Briefly result.1 := by
  unfold markFilterLogDirty
  split
  · exact returns_pure trivial
  · apply returns_bind (returns_updateFilterMetaState filter true false)
    rintro ⟨updated, filter⟩ brief
    dsimp only
    split
    · exact returns_pure brief
    · exact returns_pure trivial

theorem returns_prepareAdd (filter : Filter) (mode : LogSyncMode) :
    Returns (prepareAdd filter mode) fun result => EndsFailed result.1 := by
  apply returns_bind (returns_ensureFilterDurable filter)
  rintro ⟨durable, filter⟩ brief
  dsimp only
  split
  · exact returns_pure ⟨by decide, rfl, brief⟩
  · cases mode with
    | always => exact returns_pure trivial
    | periodic =>
      apply returns_bind (returns_markFilterLogDirty filter)
      rintro ⟨marked, filter⟩ brief
      dsimp only
      split
      · exact returns_pure ⟨by decide, rfl, brief⟩
      · exact returns_pure trivial

theorem returns_undoMark (filter : Filter) (undo : Bool) : Returns (undoMark filter undo) fun _ => True := by
  unfold undoMark
  split
  · apply returns_bind (returns_updateFilterMetaState filter true true)
    intro _ _
    exact returns_pure trivial
  · exact returns_pure trivial

theorem returns_stageFileSize (filter : Filter) (mode : LogSyncMode) :
    Returns (stageFileSize filter mode) fun _ => True := by
  unfold stageFileSize
  split
  · exact returns_pure trivial
  · split
    · exact returns_pure trivial
    · exact returns_attempt _

theorem returns_stageDigestForAdd (filter : Filter) (digest : Digest) (mode : LogSyncMode) :
    Returns (stageDigestForAdd filter digest mode) fun _ => True := by
  apply returns_bind (returns_stageFileSize filter mode)
  intro size _
  split
  · exact returns_pure trivial
  · apply returns_bind (returns_logBufferAppend _ _ digest)
    rintro ⟨appended, buf⟩ _
    dsimp only
    split
    · exact returns_pure trivial
    · exact returns_pure trivial
    · apply returns_bind (returns_logBufferFlush _ _ true)
      rintro ⟨flushed, buf⟩ _
      dsimp only
      split <;> exact returns_pure trivial

theorem returns_rollbackStagedDigest (filter : Filter) (stage : LogStage) (mode : LogSyncMode) :
    Returns (rollbackStagedDigest filter stage mode) fun _ => True := by
  cases mode with
  | always =>
    simp only [rollbackStagedDigest]
    split
    · apply returns_bind (returns_logTruncate _ _ true)
      intro _ _
      exact returns_pure trivial
    · exact returns_pure trivial
  | periodic => exact returns_pure trivial

theorem returns_commitStagedDigest (filter : Filter) (mode : LogSyncMode) :
    Returns (commitStagedDigest filter mode) fun _ => True := by
  cases mode with
  | always =>
    apply returns_bind (returns_anyCall _)
    intro _ _
    exact returns_pure trivial
  | periodic => exact returns_pure trivial

theorem length_stageFailureMessage (mode : LogSyncMode) : (stageFailureMessage mode).length ≤ 255 := by
  cases mode <;> decide

theorem returns_addStaged (filter : Filter) (digest : Digest) (mode : LogSyncMode) (undo : Bool) :
    Returns (addStaged filter digest mode undo) fun result => EndsFailed result.1 := by
  apply returns_bind (returns_stageDigestForAdd filter digest mode)
  rintro ⟨staged, filter⟩ _
  dsimp only
  split
  · apply returns_bind (returns_undoMark filter undo)
    intro _ _
    exact returns_pure ⟨by decide, rfl, length_stageFailureMessage mode⟩
  · apply returns_bind (returns_withFailure _ _)
    intro added brief
    split
    · apply returns_bind (returns_rollbackStagedDigest filter _ mode)
      intro _ _
      apply returns_bind (returns_undoMark _ undo)
      intro _ _
      exact returns_pure ⟨by decide, rfl, brief⟩
    · apply returns_bind (returns_commitStagedDigest filter mode)
      intro _ _
      exact returns_pure trivial

theorem returns_addDigest (filter : Filter) (digest : Digest) (mode : LogSyncMode) :
    Returns (addDigest filter digest mode) fun result => result.1.Served := by
  apply returns_bind (returns_prepareAdd filter mode)
  rintro ⟨prepared, filter⟩ served
  dsimp only
  split
  · exact returns_pure (Reply.Failed.served served)
  · apply returns_bind (returns_addStaged filter digest mode _)
    rintro ⟨added, filter⟩ served
    dsimp only
    split
    · exact returns_pure (Reply.Failed.served served)
    · exact returns_pure (by simp [Reply.Served, maxBatchItems])

theorem returns_checkDigest (filter : Filter) (digest : Digest) :
    Returns (checkDigest filter digest) fun result => result.1.Served := by
  apply returns_bind (returns_bpfCheckDigest filter.mapFd digest)
  intro checked brief
  split
  · exact returns_pure ⟨by decide, rfl, brief⟩
  · exact returns_pure (by simp [Reply.Served, maxBatchItems])

theorem returns_addItems (mode : LogSyncMode) (marked : Bool) (digests : List Digest) :
    ∀ (anyAdded : Bool) (filter : Filter),
      Returns (addItems mode marked digests anyAdded filter) fun result => EndsFailed result.1 := by
  induction digests with
  | nil =>
    intro anyAdded filter
    exact returns_pure trivial
  | cons digest rest ih =>
    intro anyAdded filter
    apply returns_bind (returns_addStaged filter digest mode _)
    rintro ⟨added, filter⟩ served
    dsimp only
    split
    · exact returns_pure served
    · exact ih true filter

theorem length_countBytes (values : Bytes) : (countBytes values).length = 2 + values.length := by
  simp [countBytes]
  omega

theorem returns_addBatch (filter : Filter) {digests : List Digest} (mode : LogSyncMode)
    (few : digests.length ≤ maxBatchItems) :
    Returns (addBatch filter digests mode) fun result => result.1.Served := by
  apply returns_bind (returns_prepareAdd filter mode)
  rintro ⟨prepared, filter⟩ served
  dsimp only
  split
  · exact returns_pure (Reply.Failed.served served)
  · apply returns_bind (returns_addItems mode _ digests false filter)
    rintro ⟨added, filter⟩ served
    dsimp only
    split
    · exact returns_pure (Reply.Failed.served served)
    · apply returns_pure
      simp only [Reply.Served, length_countBytes, List.length_map]
      omega

end Adding

section Batches

/-- A reply that fits a frame, with a text that fits the message buffer -/
def Reply.Short : Reply → Prop
  | .ok body => body.length ≤ 2 + maxBatchItems
  | .error status _ message => status ≠ .ok ∧ message.length ≤ 255

theorem Reply.Served.short {reply : Reply} (served : reply.Served) : reply.Short := by
  cases reply with
  | ok body => exact served
  | error status code message => exact ⟨served.1, served.2.2⟩

theorem Reply.Failed.error {reply : Reply} (failed : reply.Failed) : reply.Short ∧ reply.status ≠ .ok := by
  cases reply with
  | ok body => exact failed.elim
  | error status code message => exact ⟨⟨failed.1, failed.2.2⟩, failed.1⟩

theorem returns_batchItem (mode : LogSyncMode) (isAdd marked anyAdded : Bool) (payload : Bytes)
    (filter : Filter) :
    Returns (batchItem mode isAdd marked anyAdded payload filter) fun result => EndsFailed result.1 := by
  unfold batchItem
  split
  · apply returns_bind (returns_addStaged filter _ mode _)
    rintro ⟨added, filter⟩ served
    dsimp only
    split
    · exact returns_pure served
    · exact returns_pure trivial
  · apply returns_bind (returns_bpfCheckDigest _ _)
    intro checked brief
    split
    · exact returns_pure ⟨by decide, rfl, brief⟩
    · exact returns_pure trivial

/-- How the item loop ends: with a short error, or with one result for each item -/
def Counted (count : Nat) : Except Reply (Nat × Bytes) → Prop
  | .error reply => reply.Short ∧ reply.status ≠ .ok
  | .ok (_, results) => results.length = count

theorem returns_batchItems (mode : LogSyncMode) (isAdd marked : Bool) (items : Bytes) (count : Nat) :
    ∀ (off : Nat) (anyAdded : Bool) (filter : Filter),
      Returns (batchItems mode isAdd marked items count off anyAdded filter)
        fun result => Counted count result.1 := by
  induction count with
  | zero =>
    intro off anyAdded filter
    exact returns_pure rfl
  | succ count ih =>
    intro off anyAdded filter
    simp only [batchItems]
    split
    · exact returns_pure ⟨⟨by decide, by decide⟩, by decide⟩
    · rename_i payload consumed _
      apply returns_bind (returns_batchItem mode isAdd marked anyAdded payload filter)
      rintro ⟨item, filter⟩ served
      dsimp only
      split
      · exact returns_pure (Reply.Failed.error served)
      · apply returns_bind (ih _ _ filter)
        rintro ⟨later, filter⟩ counted
        dsimp only
        split
        · exact returns_pure counted
        · apply returns_pure
          simp only [Counted, List.length_cons] at counted ⊢
          omega

theorem returns_prepareBatch (filter : Filter) (batch : BatchRequest) (isAdd : Bool) (mode : LogSyncMode) :
    Returns (prepareBatch filter batch isAdd mode) fun result =>
      ∀ reply, result.1 = .error reply → reply.Short ∧ reply.status ≠ .ok := by
  unfold prepareBatch
  split
  · split
    · apply returns_pure
      rintro reply ⟨⟩
      exact ⟨⟨by decide, by decide⟩, by decide⟩
    · split
      · apply returns_pure
        rintro reply ⟨⟩
        exact ⟨⟨by decide, by decide⟩, by decide⟩
      · apply (returns_prepareAdd filter mode).mono
        rintro ⟨prepared, later⟩ failed reply rfl
        exact Reply.Failed.error failed
  · apply returns_pure
    rintro reply ⟨⟩

/-- A batch is answered shortly, and a success with one byte for each item. -/
theorem returns_handleItems (filter : Filter) {batch : BatchRequest} (isAdd : Bool) (mode : LogSyncMode)
    (few : batch.itemCount ≤ maxBatchItems) :
    Returns (handleItems filter batch isAdd mode) fun result => result.1.Short ∧ ∀ body, result.1 = .ok body →
      ∃ results, results.length = batch.itemCount ∧ body = countBytes results := by
  have refused {reply : Reply} (ended : reply.Short ∧ reply.status ≠ .ok) :
      reply.Short ∧ ∀ body, reply = .ok body → ∃ results, results.length = batch.itemCount ∧
        body = countBytes results := by
    refine ⟨ended.1, ?_⟩
    rintro body rfl
    exact absurd rfl ended.2
  apply returns_bind (returns_prepareBatch filter batch isAdd mode)
  rintro ⟨prepared, filter⟩ short
  dsimp only
  split
  · exact returns_pure (refused (short _ rfl))
  · apply returns_bind (returns_batchItems mode isAdd _ batch.items batch.itemCount 0 false filter)
    rintro ⟨done, filter⟩ counted
    dsimp only
    split
    · exact returns_pure (refused counted)
    · rename_i last results
      have counted : results.length = batch.itemCount := counted
      have fits : (countBytes results).length ≤ 2 + maxBatchItems := by
        rw [length_countBytes]
        omega
      have answered : ∀ body, Reply.ok (countBytes results) = .ok body →
          ∃ results, results.length = batch.itemCount ∧ body = countBytes results := by
        rintro body ⟨⟩
        exact ⟨results, counted, rfl⟩
      split
      · exact returns_pure (refused ⟨⟨by decide, by decide⟩, nofun⟩)
      · split <;> exact returns_pure ⟨fits, answered⟩

end Batches

section Dropping

theorem returns_dropMetadata (filter : Filter) : Returns (dropMetadata filter) EndsFailed := by
  apply returns_bind (returns_metaDelete _)
  intro deleted _
  split
  · split
    · apply returns_bind (returns_withFailure _ _)
      intro _ _
      exact returns_pure ⟨by decide, rfl, by decide⟩
    · exact returns_pure ⟨by decide, rfl, by decide⟩
  · split
    · apply returns_bind (returns_logDelete _)
      intro _ _
      exact returns_pure trivial
    · exact returns_pure trivial

theorem returns_dropFiles (filter : Filter) : Returns (dropFiles filter) EndsFailed := by
  unfold dropFiles
  split
  · apply returns_bind (returns_bpfUnpin _)
    intro unpinned brief
    split
    · exact returns_pure ⟨by decide, rfl, brief⟩
    · exact returns_dropMetadata filter
  · exact returns_dropMetadata filter

theorem returns_filterSetRemoveN (set : FilterSet) (name : Bytes) :
    Returns (filterSetRemoveN set name) fun _ => True := by
  unfold filterSetRemoveN
  split
  · exact returns_pure trivial
  · split
    · exact returns_pure trivial
    · apply returns_bind (returns_logBufferFlush _ _ false)
      intro _ _
      exact returns_pure trivial

theorem returns_removeDropped (daemon : Daemon) (name : Bytes) (filter : Filter) :
    Returns (removeDropped daemon name filter) fun result => result.1.Served := by
  apply returns_bind (returns_filterSetRemoveN daemon.set name)
  intro _ _
  exact returns_pure (by simp [Reply.Served])

end Dropping

section Creating

theorem returns_uninstall (metadata : FilterMeta) {reply : Reply} (daemon : Daemon) (served : reply.Served) :
    Returns (uninstall metadata reply daemon) fun result => result.1.Served := by
  apply returns_bind (returns_metaDelete _)
  intro _ _
  apply returns_bind (returns_logDelete _)
  intro _ _
  apply returns_bind (returns_bpfUnpin _)
  intro _ _
  exact returns_pure served

theorem returns_filterSetAdd (set : FilterSet) (filter : Filter) :
    Returns (filterSetAdd set filter) fun _ => True := by
  unfold filterSetAdd
  split
  · apply returns_bind (returns_attempt _)
    intro grown _
    split <;> exact returns_pure trivial
  · exact returns_pure trivial

theorem returns_installFilter (daemon : Daemon) (filter : Filter) :
    Returns (installFilter daemon filter) fun result => result.1.Served := by
  apply returns_bind (returns_metaWriteAtomic _)
  intro written _
  split
  · exact returns_pure ⟨by decide, rfl, by decide⟩
  · apply returns_bind (returns_filterSetAdd daemon.set filter)
    intro added _
    split
    · exact returns_uninstall _ daemon ⟨by decide, rfl, by decide⟩
    · exact returns_pure (by simp [Reply.Served])

end Creating

end Bloomd
