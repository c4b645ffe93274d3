import Bloomd.ControlSemantics

/-! A batch does what the single requests for its items do one after the other, up to
the first that fails. -/

namespace Bloomd

open CrashLogic Prog

section Singles

/-- Put what came before in front of the results of a reply. -/
def Reply.prepend (results : Bytes) : Reply → Reply
  | .ok later => .ok (results ++ later)
  | .error status code message => .error status code message

/-- Serve the items in order up to the first that fails, and collect their results. -/
def serveEach {ι τ : Type} (work : ι → τ → Sys (Reply × τ)) : List ι → τ → Sys (Reply × τ)
  | [], state => pure (.ok [], state)
  | item :: rest, state => do
    match ← work item state with
    | (.error status code message, state) => pure (.error status code message, state)
    | (.ok results, state) => Prod.map (Reply.prepend results) id <$> serveEach work rest state

/-- A filter without its call counters -/
def Filter.uncounted (filter : Filter) : Filter :=
  { filter with addCalls := 0, checkCalls := 0, batchAddCalls := 0, batchCheckCalls := 0 }

/-- A daemon without the call counters of its filters -/
def Daemon.uncounted (daemon : Daemon) : Daemon :=
  { daemon with set := { daemon.set with items := daemon.set.items.map Filter.uncounted } }

/-- The answer to an MCHECK whose items had these results -/
def Reply.counted : Reply → Reply
  | .ok results => .ok (countBytes results)
  | .error status code message => .error status code message

/-- The answer to a MADD of so many items, whatever the results of the items were -/
def Reply.allOnes (count : Nat) : Reply → Reply
  | .ok _ => .ok (countBytes (List.replicate count 1))
  | .error status code message => .error status code message

theorem Reply.Failed.eq_error {reply : Reply} (failed : reply.Failed) :
    ∃ status code message, reply = .error status code message := by
  cases reply with
  | ok body => exact failed.elim
  | error status code message => exact ⟨status, code, message, rfl⟩

end Singles

section Counters

variable {filter : Filter} {mode : LogSyncMode}

def Filter.tallied (filter : Filter) (adds checks : Nat) : Filter :=
  { filter with addCalls := filter.addCalls + adds, checkCalls := filter.checkCalls + checks }

theorem uncounted_tallied (adds checks : Nat) : (filter.tallied adds checks).uncounted = filter.uncounted := rfl

theorem updateFilterMetaState_tallied (adds checks : Nat) (hasData logClean : Bool) :
    updateFilterMetaState (filter.tallied adds checks) hasData logClean =
      Prod.map id (·.tallied adds checks) <$> updateFilterMetaState filter hasData logClean := by
  simp only [updateFilterMetaState, map_bind]
  apply bind_congr
  intro written
  cases written <;> rfl

theorem undoMark_tallied (adds checks : Nat) (undo : Bool) :
    undoMark (filter.tallied adds checks) undo = (·.tallied adds checks) <$> undoMark filter undo := by
  cases undo with
  | false => rfl
  | true =>
    simp only [undoMark, ↓reduceIte, updateFilterMetaState_tallied, map_bind, bind_map_left, map_pure, Prod.map]

theorem stageDigestForAdd_tallied (adds checks : Nat) (digest : Digest) :
    stageDigestForAdd (filter.tallied adds checks) digest mode =
      Prod.map id (·.tallied adds checks) <$> stageDigestForAdd filter digest mode := by
  simp only [stageDigestForAdd, map_bind]
  apply bind_congr
  intro size
  cases size with
  | error errno => rfl
  | ok size =>
    simp only [map_bind]
    apply bind_congr
    intro appended
    obtain ⟨result, buf⟩ := appended
    cases result with
    | error errno => rfl
    | ok done =>
      cases mode with
      | periodic => rfl
      | always =>
        simp only [map_bind]
        apply bind_congr
        intro flushed
        obtain ⟨result, buf⟩ := flushed
        cases result <;> rfl

theorem rollbackStagedDigest_tallied (adds checks : Nat) (stage : LogStage) :
    rollbackStagedDigest (filter.tallied adds checks) stage mode =
      (·.tallied adds checks) <$> rollbackStagedDigest filter stage mode := by
  cases mode with
  | periodic => rfl
  | always =>
    simp only [rollbackStagedDigest]
    split
    · simp only [map_bind]
      apply bind_congr
      intro truncated
      rfl
    · rfl

theorem commitStagedDigest_tallied (adds checks : Nat) :
    commitStagedDigest (filter.tallied adds checks) mode =
      (·.tallied adds checks) <$> commitStagedDigest filter mode := by
  cases mode with
  | periodic => rfl
  | always =>
    simp only [commitStagedDigest, map_bind]
    rfl

/-- The counters of a filter have no part in the work on a digest. -/
theorem addStaged_tallied (adds checks : Nat) (digest : Digest) (undo : Bool) :
    addStaged (filter.tallied adds checks) digest mode undo =
      Prod.map id (·.tallied adds checks) <$> addStaged filter digest mode undo := by
  simp only [addStaged, stageDigestForAdd_tallied, bind_map_left, map_bind]
  apply bind_congr
  intro staged
  obtain ⟨result, filter⟩ := staged
  cases result with
  | error errno =>
    simp only [Prod.map, id_eq, undoMark_tallied, bind_map_left, map_bind, map_pure]
  | ok stage =>
    simp only [Prod.map, id_eq, map_bind]
    apply bind_congr
    intro added
    cases added with
    | error failure =>
      simp only [rollbackStagedDigest_tallied, undoMark_tallied, bind_map_left, map_bind, map_pure, Prod.map, id_eq]
    | ok done =>
      simp only [commitStagedDigest_tallied, bind_map_left, map_bind, map_pure, Prod.map, id_eq]

end Counters

section Preparation

variable {filter : Filter} {mode : LogSyncMode} {world : World}

/-- A filter for which `prepareAdd` has nothing left to do -/
structure Filter.Primed (mode : LogSyncMode) (filter : Filter) : Prop where
  hasData : filter.metadata.hasData = true
  opened : filter.logFd.isSome = true
  marked : mode = .periodic → filter.metadata.logClean = false

theorem ensureFilterDurable_primed (primed : filter.Primed mode) :
    ensureFilterDurable filter = pure (.ok (), filter) := by
  obtain ⟨fd, opened⟩ := Option.isSome_iff_exists.mp primed.opened
  unfold ensureFilterDurable
  rw [if_pos primed.hasData, opened]

theorem prepareAdd_primed (primed : filter.Primed mode) : prepareAdd filter mode = pure (.ok false, filter) := by
  unfold prepareAdd
  rw [ensureFilterDurable_primed primed, pure_bind]
  cases mode with
  | always => rfl
  | periodic =>
    have unclean := primed.marked rfl
    simp only [markFilterLogDirty, unclean, Bool.not_false, Bool.or_true, ↓reduceIte, pure_bind]

theorem wp_openFilterLog_yields (truncate : Bool) :
    wp (openFilterLog filter truncate) (fun result _ => result.2.metadata = filter.metadata ∧
      (result.1 = .ok () → result.2.logFd.isSome = true)) (fun _ => True) world := by
  unfold openFilterLog
  apply wp_bind
  apply (wp_trivial _).mono _ fun _ held => held
  intro opened after _
  split
  · exact (wp_pure _).mpr ⟨rfl, fun wrong => by cases wrong⟩
  · apply wp_bind
    apply (wp_trivial _).mono _ fun _ held => held
    intro now later _
    exact (wp_pure _).mpr ⟨rfl, fun _ => rfl⟩

theorem wp_updateFilterMetaState_yields (hasData logClean : Bool) :
    wp (updateFilterMetaState filter hasData logClean)
      (fun result _ => result.2.name = filter.name ∧ result.2.logFd = filter.logFd ∧
        (result.1 = .ok () → result.2.metadata = filter.metadata.withState hasData logClean))
      (fun _ => True) world := by
  unfold updateFilterMetaState
  apply wp_bind
  apply (wp_trivial _).mono _ fun _ held => held
  intro written after _
  split
  · exact (wp_pure _).mpr ⟨rfl, rfl, fun wrong => by cases wrong⟩
  · exact (wp_pure _).mpr ⟨rfl, rfl, fun _ => rfl⟩

theorem wp_ensureFilterDurable_yields :
    wp (ensureFilterDurable filter) (fun result _ => result.2.name = filter.name ∧
      (result.1 = .ok () → result.2.metadata.hasData = true ∧ result.2.logFd.isSome = true))
      (fun _ => True) world := by
  unfold ensureFilterDurable
  split
  · rename_i hasData
    split
    · apply (wp_openFilterLog_yields false).mono _ fun _ held => held
      intro result after yielded
      obtain ⟨same, opened⟩ := yielded
      exact ⟨by rw [Filter.name, same], fun done => ⟨by rw [same, hasData], opened done⟩⟩
    · rename_i fd opened
      exact (wp_pure _).mpr ⟨rfl, fun _ => ⟨hasData, by rw [opened]; rfl⟩⟩
  · apply wp_bind
    apply (wp_trivial _).mono _ fun _ held => held
    intro pinned after _
    split
    · exact (wp_pure _).mpr ⟨rfl, fun wrong => by cases wrong⟩
    · apply wp_bind
      apply (wp_openFilterLog_yields true).mono _ fun _ held => held
      intro result middle yielded
      obtain ⟨outcome, prepared⟩ := result
      obtain ⟨same, opened⟩ := yielded
      have named : prepared.name = filter.name := congrArg (fun metadata : FilterMeta => metadata.name) same
      cases outcome with
      | error failure =>
        apply wp_bind
        apply (wp_trivial _).mono _ fun _ held => held
        intro unpinned later _
        exact (wp_pure _).mpr ⟨named, fun wrong => by cases wrong⟩
      | ok done =>
        apply wp_bind
        apply (wp_updateFilterMetaState_yields true true).mono _ fun _ held => held
        intro updated later stored
        obtain ⟨outcome, marked⟩ := updated
        obtain ⟨kept, fd, flagged⟩ := stored
        cases outcome with
        | error failure =>
          apply wp_bind
          apply (wp_trivial _).mono _ fun _ held => held
          intro deleted further _
          apply wp_bind
          apply (wp_trivial _).mono _ fun _ held => held
          intro unpinned last _
          exact (wp_pure _).mpr ⟨kept.trans named, fun wrong => by cases wrong⟩
        | ok done =>
          have whole : marked.metadata = _ := flagged rfl
          have still : marked.logFd.isSome = true := by
            rw [show marked.logFd = prepared.logFd from fd]
            exact opened rfl
          exact (wp_pure _).mpr ⟨kept.trans named, fun _ => ⟨by rw [whole]; rfl, still⟩⟩

/-- After a successful preparation the filter is primed. -/
theorem wp_prepareAdd_yields :
    wp (prepareAdd filter mode) (fun result _ => result.2.name = filter.name ∧
      ∀ marked, result.1 = .ok marked → result.2.Primed mode) (fun _ => True) world := by
  unfold prepareAdd
  apply wp_bind
  apply wp_ensureFilterDurable_yields.mono _ fun _ held => held
  intro result after yielded
  obtain ⟨outcome, durable⟩ := result
  obtain ⟨named, ready⟩ := yielded
  cases outcome with
  | error failure => exact (wp_pure _).mpr ⟨named, fun marked wrong => by cases wrong⟩
  | ok done =>
    obtain ⟨hasData, opened⟩ := ready rfl
    cases mode with
    | always => exact (wp_pure _).mpr ⟨named, fun _ _ => ⟨hasData, opened, fun wrong => by cases wrong⟩⟩
    | periodic =>
      dsimp only at hasData opened ⊢
      unfold markFilterLogDirty
      by_cases unclean : durable.metadata.logClean = false
      · rw [if_pos (by simp [unclean]), pure_bind]
        exact (wp_pure _).mpr ⟨named, fun _ _ => ⟨hasData, opened, fun _ => unclean⟩⟩
      · rw [if_neg (by simp [hasData, unclean]), bind_assoc]
        apply wp_bind
        apply (wp_updateFilterMetaState_yields true false).mono _ fun _ held => held
        intro updated later stored
        obtain ⟨outcome, marked⟩ := updated
        obtain ⟨kept, fd, flagged⟩ := stored
        cases outcome with
        | error failure => exact (wp_pure _).mpr ⟨kept.trans named, fun marked wrong => by cases wrong⟩
        | ok done =>
          have whole : marked.metadata = _ := flagged rfl
          have still : marked.logFd.isSome = true := by
            rw [show marked.logFd = durable.logFd from fd]
            exact opened
          exact (wp_pure _).mpr ⟨kept.trans named, fun _ _ =>
            ⟨by rw [whole]; rfl, still, fun _ => by rw [whole]; rfl⟩⟩

theorem wp_undoMark_yields (undo : Bool) :
    wp (undoMark filter undo) (fun later _ => later.name = filter.name) (fun _ => True) world := by
  cases undo with
  | false => exact (wp_pure _).mpr rfl
  | true =>
    apply wp_bind
    apply (wp_updateFilterMetaState_yields true true).mono _ fun _ held => held
    intro updated after stored
    exact (wp_pure _).mpr stored.1

theorem wp_stageDigestForAdd_yields (digest : Digest) :
    wp (stageDigestForAdd filter digest mode)
      (fun result _ => result.2.metadata = filter.metadata ∧ result.2.logFd = filter.logFd)
      (fun _ => True) world := by
  unfold stageDigestForAdd
  apply wp_bind
  apply (wp_trivial _).mono _ fun _ held => held
  intro size after _
  split
  · exact (wp_pure _).mpr ⟨rfl, rfl⟩
  · apply wp_bind
    apply (wp_trivial _).mono _ fun _ held => held
    intro appended middle _
    obtain ⟨result, buf⟩ := appended
    cases result with
    | error errno => exact (wp_pure _).mpr ⟨rfl, rfl⟩
    | ok done =>
      cases mode with
      | periodic => exact (wp_pure _).mpr ⟨rfl, rfl⟩
      | always =>
        apply wp_bind
        apply (wp_trivial _).mono _ fun _ held => held
        intro flushed later _
        obtain ⟨result, buf⟩ := flushed
        cases result <;> exact (wp_pure _).mpr ⟨rfl, rfl⟩

theorem wp_rollbackStagedDigest_yields (stage : LogStage) :
    wp (rollbackStagedDigest filter stage mode) (fun later _ => later.metadata = filter.metadata)
      (fun _ => True) world := by
  cases mode with
  | periodic => exact (wp_pure _).mpr rfl
  | always =>
    simp only [rollbackStagedDigest]
    split
    · apply wp_bind
      apply (wp_trivial _).mono _ fun _ held => held
      intro truncated after _
      exact (wp_pure _).mpr rfl
    · exact (wp_pure _).mpr rfl

theorem wp_commitStagedDigest_yields :
    wp (commitStagedDigest filter mode)
      (fun later _ => later.metadata = filter.metadata ∧ later.logFd = filter.logFd) (fun _ => True) world := by
  cases mode with
  | periodic => exact (wp_pure _).mpr ⟨rfl, rfl⟩
  | always =>
    apply wp_bind
    apply (wp_trivial _).mono _ fun _ held => held
    intro now after _
    exact (wp_pure _).mpr ⟨rfl, rfl⟩

theorem Filter.name_of_metadata {later : Filter} (same : later.metadata = filter.metadata) :
    later.name = filter.name := congrArg (fun metadata : FilterMeta => metadata.name) same

/-- A digest that was added leaves a primed filter primed. -/
theorem wp_addStaged_yields (digest : Digest) (undo : Bool) :
    wp (addStaged filter digest mode undo) (fun result _ => result.2.name = filter.name ∧
      (result.1 = .ok () → filter.Primed mode → result.2.Primed mode)) (fun _ => True) world := by
  unfold addStaged
  apply wp_bind
  apply (wp_stageDigestForAdd_yields digest).mono _ fun _ held => held
  intro result after yielded
  obtain ⟨staged, current⟩ := result
  obtain ⟨same, fd⟩ := yielded
  have named : current.name = filter.name := Filter.name_of_metadata same
  cases staged with
  | error errno =>
    apply wp_bind
    apply (wp_undoMark_yields undo).mono _ fun _ held => held
    intro undone later kept
    exact (wp_pure _).mpr ⟨kept.trans named, fun wrong => by cases wrong⟩
  | ok stage =>
    apply wp_bind
    apply (wp_trivial _).mono _ fun _ held => held
    intro added middle _
    cases added with
    | error failure =>
      apply wp_bind
      apply (wp_rollbackStagedDigest_yields stage).mono _ fun _ held => held
      intro rolled later kept
      apply wp_bind
      apply (wp_undoMark_yields undo).mono _ fun _ held => held
      intro undone last still
      have chain := still.trans ((Filter.name_of_metadata kept).trans named)
      exact (wp_pure _).mpr ⟨chain, fun wrong => by cases wrong⟩
    | ok done =>
      apply wp_bind
      apply wp_commitStagedDigest_yields.mono _ fun _ held => held
      intro committed later kept
      have whole : committed.metadata = filter.metadata := kept.1.trans same
      have still : committed.logFd = filter.logFd := kept.2.trans fd
      refine (wp_pure _).mpr ⟨Filter.name_of_metadata whole, fun _ primed => ?_⟩
      exact ⟨by rw [whole, primed.hasData], by rw [still, primed.opened],
        fun periodic => by rw [whole, primed.marked periodic]⟩

theorem wp_addDigest_yields (digest : Digest) :
    wp (addDigest filter digest mode) (fun result _ => result.2.name = filter.name) (fun _ => True) world := by
  unfold addDigest
  apply wp_bind
  apply wp_prepareAdd_yields.mono _ fun _ held => held
  intro result after yielded
  obtain ⟨prepared, current⟩ := result
  cases prepared with
  | error reply => exact (wp_pure _).mpr yielded.1
  | ok marked =>
    apply wp_bind
    apply (wp_addStaged_yields digest marked).mono _ fun _ held => held
    intro added later kept
    obtain ⟨outcome, last⟩ := added
    cases outcome with
    | error reply => exact (wp_pure _).mpr (kept.1.trans yielded.1)
    | ok done => exact (wp_pure _).mpr (kept.1.trans yielded.1)

theorem wp_checkDigest_yields (digest : Digest) :
    wp (checkDigest filter digest) (fun result _ => result.2.name = filter.name) (fun _ => True) world := by
  unfold checkDigest
  apply wp_bind
  apply (wp_trivial _).mono _ fun _ held => held
  intro checked after _
  split <;> exact (wp_pure _).mpr rfl

end Preparation

section Batches

variable {filter : Filter} {mode : LogSyncMode}

/-- What the loop of a MADD reports over these items -/
def addedReply (digests : List Digest) : Except Reply Unit → Reply
  | .error reply => reply
  | .ok () => .ok (digests.map fun _ => 1)

/-- The single ADDs of some digests -/
abbrev addEach (mode : LogSyncMode) : List Digest → Filter → Sys (Reply × Filter) :=
  serveEach fun digest filter => addDigest filter digest mode

/-- The end of a single ADD -/
def finishAdd : Except Reply Unit × Filter → Reply × Filter
  | (.error reply, filter) => (reply, filter)
  | (.ok (), filter) => (.ok [1], { filter with addCalls := filter.addCalls + 1 })

theorem addDigest_primed (primed : filter.Primed mode) (digest : Digest) :
    addDigest filter digest mode = finishAdd <$> addStaged filter digest mode false := by
  unfold addDigest
  rw [prepareAdd_primed primed, pure_bind, map_eq_pure_bind]
  apply bind_congr
  intro result
  obtain ⟨added, later⟩ := result
  cases added <;> rfl

/-- On a primed filter the loop of a MADD is the single ADDs. -/
theorem addItems_eq_addEach (marked : Bool) (digests : List Digest) :
    ∀ (filter : Filter) (adds checks : Nat), filter.Primed mode →
      Prod.map (addedReply digests) Filter.uncounted <$> addItems mode marked digests true filter =
        Prod.map id Filter.uncounted <$> addEach mode digests (filter.tallied adds checks) := by
  induction digests with
  | nil =>
    intro filter adds checks _
    simp only [addItems, addEach, serveEach, map_pure]
    rfl
  | cons digest rest ih =>
    intro filter adds checks primed
    have ready : (filter.tallied adds checks).Primed mode := ⟨primed.hasData, primed.opened, primed.marked⟩
    simp only [addItems, addEach, serveEach, addDigest_primed ready, addStaged_tallied, bind_map_left, map_bind,
      Bool.not_true, Bool.and_false]
    apply bind_eq_of_yields fun run => (⟨(wp_addStaged_yields digest false).returned run,
      (returns_addStaged filter digest mode false).yields run⟩ : _ ∧ _)
    intro result yielded
    obtain ⟨added, later⟩ := result
    obtain ⟨⟨-, remains⟩, failed⟩ := yielded
    cases added with
    | error reply =>
      obtain ⟨status, code, message, rfl⟩ := Reply.Failed.eq_error failed
      simp only [map_pure, Prod.map, finishAdd, id_eq, addedReply, uncounted_tallied]
    | ok done =>
      have step := ih later (adds + 1) checks (remains rfl primed)
      have joined := congrArg (fun program => Prod.map (Reply.prepend [1]) id <$> program) step
      simp only [Functor.map_map] at joined
      change Prod.map (addedReply (digest :: rest)) Filter.uncounted <$> addItems mode marked rest true later =
        Prod.map id Filter.uncounted <$> Prod.map (Reply.prepend [1]) id <$>
          addEach mode rest (later.tallied (adds + 1) checks)
      rw [Functor.map_map]
      apply Eq.trans _ joined
      rw [map_eq_pure_bind, map_eq_pure_bind]
      apply bind_eq_of_yields (returns_addItems mode marked rest true later).yields
      intro result failed
      obtain ⟨added, last⟩ := result
      cases added with
      | ok done => rfl
      | error reply =>
        obtain ⟨status, code, message, rfl⟩ := Reply.Failed.eq_error failed
        rfl

/-- A MADD on a filter is the single ADDs of its items. -/
theorem addBatch_eq_addEach {digests : List Digest} (some : digests ≠ []) :
    Prod.map id Filter.uncounted <$> addBatch filter digests mode =
      Prod.map Reply.counted Filter.uncounted <$> addEach mode digests filter := by
  obtain ⟨digest, rest, rfl⟩ := List.exists_cons_of_ne_nil some
  simp only [addBatch, addEach, serveEach, addDigest, bind_assoc, map_bind]
  apply bind_eq_of_yields fun run => (⟨wp_prepareAdd_yields.returned run,
    (returns_prepareAdd filter mode).yields run⟩ : _ ∧ _)
  intro result yielded
  obtain ⟨prepared, current⟩ := result
  obtain ⟨⟨-, ready⟩, failed⟩ := yielded
  cases prepared with
  | error reply =>
    obtain ⟨status, code, message, rfl⟩ := Reply.Failed.eq_error failed
    rfl
  | ok marked =>
    have primed : current.Primed mode := ready marked rfl
    simp only [addItems, Bool.not_false, Bool.and_true, bind_assoc, map_bind]
    apply bind_eq_of_yields fun run => (⟨(wp_addStaged_yields digest marked).returned run,
      (returns_addStaged current digest mode marked).yields run⟩ : _ ∧ _)
    intro result yielded
    obtain ⟨added, later⟩ := result
    obtain ⟨⟨-, remains⟩, failed⟩ := yielded
    cases added with
    | error reply =>
      obtain ⟨status, code, message, rfl⟩ := Reply.Failed.eq_error failed
      rfl
    | ok done =>
      have step := addItems_eq_addEach marked rest later 1 0 (remains rfl primed)
      have joined := congrArg (fun program => Prod.map (Reply.counted ∘ Reply.prepend [1]) id <$> program) step
      simp only [Functor.map_map] at joined
      change (addItems mode marked rest true later >>= _) =
        Prod.map Reply.counted Filter.uncounted <$> Prod.map (Reply.prepend [1]) id <$>
          addEach mode rest (later.tallied 1 0)
      rw [Functor.map_map]
      apply Eq.trans _ joined
      rw [map_eq_pure_bind]
      apply bind_eq_of_yields (returns_addItems mode marked rest true later).yields
      intro result failed
      obtain ⟨added, last⟩ := result
      cases added with
      | ok done => rfl
      | error reply =>
        obtain ⟨status, code, message, rfl⟩ := Reply.Failed.eq_error failed
        rfl

/-- The single CHECKs of some digests -/
abbrev checkEach : List Digest → Filter → Sys (Reply × Filter) :=
  serveEach fun digest filter => checkDigest filter digest

theorem returns_checkItems (digests : List Digest) : Returns (checkItems filter digests) EndsFailed := by
  induction digests with
  | nil => exact returns_pure trivial
  | cons digest rest ih =>
    apply returns_bind (returns_bpfCheckDigest _ digest)
    intro checked brief
    split
    · exact returns_pure ⟨by decide, rfl, brief⟩
    · apply returns_bind ih
      intro later failed
      split
      · exact returns_pure failed
      · exact returns_pure trivial

/-- What the loop of an MCHECK reports -/
def checkedReply : Except Reply Bytes → Reply
  | .error reply => reply
  | .ok results => .ok results

/-- The loop of an MCHECK is the single CHECKs. -/
theorem checkItems_eq_checkEach (digests : List Digest) : ∀ (adds checks : Nat),
    (fun outcome => (checkedReply outcome, filter.uncounted)) <$> checkItems filter digests =
      Prod.map id Filter.uncounted <$> checkEach digests (filter.tallied adds checks) := by
  induction digests with
  | nil =>
    intro adds checks
    rfl
  | cons digest rest ih =>
    intro adds checks
    simp only [checkItems, checkEach, serveEach, checkDigest, bind_assoc, map_bind]
    apply bind_congr
    intro checked
    cases checked with
    | error failure => rfl
    | ok present =>
      have joined := congrArg (fun program => Prod.map (Reply.prepend [if present then 1 else 0]) id <$> program)
        (ih adds (checks + 1))
      simp only [Functor.map_map] at joined
      change (fun outcome => (checkedReply outcome, filter.uncounted)) <$> (checkItems filter rest >>= _) =
        Prod.map id Filter.uncounted <$> Prod.map (Reply.prepend [if present then 1 else 0]) id <$>
          checkEach rest (filter.tallied adds (checks + 1))
      rw [Functor.map_map, map_bind]
      apply Eq.trans _ joined
      rw [map_eq_pure_bind]
      apply bind_eq_of_yields (returns_checkItems rest).yields
      intro outcome failed
      cases outcome with
      | ok results => rfl
      | error reply =>
        obtain ⟨status, code, message, rfl⟩ := Reply.Failed.eq_error failed
        rfl

/-- An MCHECK on a filter is the single CHECKs of its items. -/
theorem checkBatch_eq_checkEach (digests : List Digest) :
    Prod.map id Filter.uncounted <$> checkBatch filter digests =
      Prod.map Reply.counted Filter.uncounted <$> checkEach digests filter := by
  have joined := congrArg (fun program => Prod.map Reply.counted id <$> program)
    (@checkItems_eq_checkEach filter digests 0 0)
  simp only [Functor.map_map] at joined
  apply Eq.trans _ joined
  simp only [checkBatch, map_bind]
  rw [map_eq_pure_bind]
  apply bind_eq_of_yields (returns_checkItems digests).yields
  intro outcome failed
  cases outcome with
  | ok results => rfl
  | error reply =>
    obtain ⟨status, code, message, rfl⟩ := Reply.Failed.eq_error failed
    rfl

end Batches

section Lookups

variable {set : FilterSet} {name : Bytes} {index : Nat}

theorem findN_cached {filter : Filter} (cached : set.lastIndex = some index)
    (present : set.items[index]? = some filter)
    (matched : nameMatches filter.name name = true) : set.findN name = (some index, set) := by
  unfold FilterSet.findN
  simp [cached, FilterSet.matchesAt, present, matched]

theorem lastIndex_of_findN (found : (set.findN name).1 = some index) : (set.findN name).2.lastIndex = some index := by
  have scanned : (FilterSet.findN.scan set name).1 = some index →
      (FilterSet.findN.scan set name).2.lastIndex = some index := by
    unfold FilterSet.findN.scan
    intro met
    split at met
    · simpa using met
    · cases met
  unfold FilterSet.findN at found ⊢
  split at found
  · rename_i last cached
    split at found
    · rename_i matched
      rw [if_pos matched]
      simpa [cached] using found
    · rename_i unmatched
      rw [if_neg unmatched]
      exact scanned found
  · exact scanned found

/-- The daemon with another filter at an index -/
def Daemon.put (daemon : Daemon) (index : Nat) (filter : Filter) : Daemon :=
  { daemon with set := { daemon.set with items := daemon.set.items.set index filter } }

/-- The cached index of a daemon names this filter. -/
structure Daemon.Points (daemon : Daemon) (name : Bytes) (index : Nat) (filter : Filter) : Prop where
  cached : daemon.set.lastIndex = some index
  present : daemon.set.items[index]? = some filter
  matched : nameMatches filter.name name = true

theorem Daemon.Points.bound {daemon : Daemon} {filter : Filter} (points : daemon.Points name index filter) :
    index < daemon.set.items.length := (List.getElem?_eq_some_iff.mp points.present).1

theorem Daemon.Points.put {daemon : Daemon} {filter later : Filter} (points : daemon.Points name index filter)
    (same : later.name = filter.name) : (daemon.put index later).Points name index later where
  cached := points.cached
  present := List.getElem?_set_self points.bound
  matched := by rw [same, points.matched]

theorem Daemon.Points.put_self {daemon : Daemon} {filter : Filter} (points : daemon.Points name index filter) :
    daemon.put index filter = daemon := by
  obtain ⟨bound, there⟩ := List.getElem?_eq_some_iff.mp points.present
  have whole : daemon.set.items.set index filter = daemon.set.items := by rw [← there, List.set_getElem_self]
  unfold Daemon.put
  rw [whole]

theorem Daemon.put_put (daemon : Daemon) (filter later : Filter) :
    (daemon.put index filter).put index later = daemon.put index later := by
  simp only [Daemon.put, List.set_set]

theorem withFilter_found {daemon : Daemon} {filter : Filter} (found : (daemon.set.findN name).1 = some index)
    (present : daemon.set.items[index]? = some filter) (work : Filter → Sys (Reply × Filter)) :
    withFilter daemon name work =
      Prod.map id (Daemon.put { daemon with set := (daemon.set.findN name).2 } index) <$> work filter := by
  simp only [withFilter, found, FilterSet.findN_items, present, map_eq_pure_bind, Daemon.put, Prod.map, id_eq]

theorem withFilter_points {daemon : Daemon} {filter : Filter} (points : daemon.Points name index filter)
    (work : Filter → Sys (Reply × Filter)) :
    withFilter daemon name work = Prod.map id (daemon.put index) <$> work filter := by
  have cached := findN_cached points.cached points.present points.matched
  rw [withFilter_found (by rw [cached]) points.present, cached]

variable {ι : Type} {work : Config → ι → Filter → Sys (Reply × Filter)}

/-- Requests for a filter that the cached index names work on it in turn. -/
theorem serveEach_points (named : ∀ config item filter {world answers result after rest},
      work config item filter world answers = .returned result after rest → result.2.name = filter.name)
    (items : List ι) : ∀ {daemon : Daemon} {filter : Filter}, daemon.Points name index filter →
      serveEach (fun item daemon => withFilter daemon name (work daemon.config item)) items daemon =
        Prod.map id (daemon.put index) <$> serveEach (work daemon.config) items filter := by
  induction items with
  | nil =>
    intro daemon filter points
    simp only [serveEach, map_pure, Prod.map, points.put_self, id_eq]
  | cons item rest ih =>
    intro daemon filter points
    simp only [serveEach, withFilter_points points, map_bind, bind_map_left]
    apply bind_eq_of_yields (named daemon.config item filter)
    intro result same
    obtain ⟨reply, later⟩ := result
    cases reply with
    | error status code message => rfl
    | ok results =>
      simp only [Prod.map, id_eq, ih (points.put same), Functor.map_map, Daemon.put_put]
      rfl

/-- Single requests for one filter are one lookup and then the work of each. -/
theorem serveEach_withFilter (named : ∀ config item filter {world answers result after rest},
      work config item filter world answers = .returned result after rest → result.2.name = filter.name)
    {items : List ι} (some : items ≠ []) (daemon : Daemon) :
    serveEach (fun item daemon => withFilter daemon name (work daemon.config item)) items daemon =
      withFilter daemon name (serveEach (work daemon.config) items) := by
  obtain ⟨item, rest, rfl⟩ := List.exists_cons_of_ne_nil some
  cases found : (daemon.set.findN name).1 with
  | none => simp only [serveEach, withFilter, found, pure_bind]
  | some index =>
    obtain ⟨filter, present, matched⟩ := FilterSet.findN_some found
    have points : Daemon.Points { daemon with set := (daemon.set.findN name).2 } name index filter :=
      ⟨lastIndex_of_findN found, by rw [FilterSet.findN_items, present], matched⟩
    have looked (work : Filter → Sys (Reply × Filter)) : withFilter daemon name work =
        withFilter { daemon with set := (daemon.set.findN name).2 } name work := by
      rw [withFilter_points points, withFilter_found found present]
    have first : serveEach (fun item daemon => withFilter daemon name (work daemon.config item))
        (item :: rest) daemon =
        serveEach (fun item daemon => withFilter daemon name (work daemon.config item)) (item :: rest)
          { daemon with set := (daemon.set.findN name).2 } := by
      simp only [serveEach, looked]
    rw [first, serveEach_points named _ points, looked, withFilter_points points]

end Lookups

section Agreement

theorem Daemon.uncounted_put (daemon : Daemon) (index : Nat) (filter : Filter) :
    (daemon.put index filter).uncounted = daemon.uncounted.put index filter.uncounted := by
  simp only [Daemon.put, Daemon.uncounted, List.map_set]

/-- Works that differ in the counters of the filter differ in those of the daemon. -/
theorem withFilter_uncounted (daemon : Daemon) (name : Bytes) {batch singles : Filter → Sys (Reply × Filter)}
    (same : ∀ filter, Prod.map id Filter.uncounted <$> batch filter =
      Prod.map Reply.counted Filter.uncounted <$> singles filter) :
    Prod.map id Daemon.uncounted <$> withFilter daemon name batch =
      Prod.map Reply.counted Daemon.uncounted <$> withFilter daemon name singles := by
  cases found : (daemon.set.findN name).1 with
  | none => simp only [withFilter, found, map_pure, Prod.map, Reply.counted, id_eq]
  | some index =>
    obtain ⟨filter, present, -⟩ := FilterSet.findN_some found
    have joined := congrArg (fun program => Prod.map id
      (Daemon.put (Daemon.uncounted { daemon with set := (daemon.set.findN name).2 }) index) <$> program) (same filter)
    rw [withFilter_found found present, withFilter_found found present]
    simpa only [Functor.map_map, Prod.map, Daemon.uncounted_put, id_eq] using joined

theorem length_readPayload {buf payload : Bytes} {consumed : Nat} (read : readPayload buf = .ok (payload, consumed)) :
    payload.length ≤ maxFrameBody := by
  unfold readPayload at read
  split_ifs at read with short large cut
  cases read
  rw [List.length_take]
  omega

theorem length_readItems_payload {items : Bytes} {count : Nat} : ∀ {off payloads last},
    readItems items count off = .ok (payloads, last) → ∀ payload ∈ payloads, payload.length ≤ maxFrameBody := by
  induction count with
  | zero =>
    intro off payloads last read payload member
    cases read
    cases member
  | succ count ih =>
    intro off payloads last read payload member
    obtain ⟨first, consumed, rest, met, later, rfl⟩ := readItems_succ read
    rcases List.mem_cons.mp member with rfl | further
    · exact length_readPayload met
    · exact ih later payload further

/-- The single requests for the items of a batch -/
def serveSingles (daemon : Daemon) (name : Bytes) (payloads : List Bytes) (isAdd : Bool) : Sys (Reply × Daemon) :=
  serveEach (fun body daemon => handleAddCheckBody daemon body isAdd) (payloads.map (payloadBody name)) daemon

theorem serveEach_map {ι κ τ : Type} (work : κ → τ → Sys (Reply × τ)) (view : ι → κ) (items : List ι) :
    ∀ state, serveEach work (items.map view) state = serveEach (fun item => work (view item)) items state := by
  induction items with
  | nil => intro state; rfl
  | cons item rest ih =>
    intro state
    simp only [List.map_cons, serveEach, ih]

theorem serveEach_congr {ι τ : Type} {work work' : ι → τ → Sys (Reply × τ)} {items : List ι}
    (same : ∀ item ∈ items, work item = work' item) : serveEach work items = serveEach work' items := by
  induction items with
  | nil => rfl
  | cons item rest ih =>
    funext state
    have later := ih fun item member => same item (List.mem_cons_of_mem _ member)
    simp only [serveEach, same item List.mem_cons_self, later]

/-- The work of a single request on the filter it found -/
def singleWork (isAdd : Bool) (config : Config) (digest : Digest) (filter : Filter) : Sys (Reply × Filter) :=
  if isAdd then addDigest filter digest config.logSyncMode else checkDigest filter digest

theorem name_singleWork (isAdd : Bool) (config : Config) (digest : Digest) (filter : Filter)
    {world : World} {answers : List Answer} {result : Reply × Filter} {after : World} {rest : List Answer}
    (run : singleWork isAdd config digest filter world answers = .returned result after rest) :
    result.2.name = filter.name := by
  cases isAdd with
  | true => exact (wp_addDigest_yields digest).returned run
  | false => exact (wp_checkDigest_yields digest).returned run

/-- The single requests look the filter up once and work on its digests in turn. -/
theorem serveSingles_eq (daemon : Daemon) {name : Bytes} {payloads : List Bytes} (isAdd : Bool)
    (valid : nameIsValid name = true) (some : payloads ≠ [])
    (small : ∀ payload ∈ payloads, payload.length ≤ maxFrameBody) :
    serveSingles daemon name payloads isAdd =
      withFilter daemon name (serveEach (singleWork isAdd daemon.config) (payloads.map digestPayload)) := by
  have each : ∀ payload ∈ payloads, (fun daemon => handleAddCheckBody daemon (payloadBody name payload) isAdd) =
      fun daemon => withFilter daemon name (singleWork isAdd daemon.config (digestPayload payload)) := by
    intro payload member
    have fits : payload.length < 2 ^ 32 := by
      have bound := small payload member
      simp only [maxFrameBody] at bound
      omega
    funext daemon
    simp only [handleAddCheckBody, parseNamePayload_payloadBody valid fits, handleAddCheck, valid, Bool.not_true,
      Bool.false_eq_true, ↓reduceIte]
    rfl
  have kept : ∀ config payload filter {world answers result after rest},
      singleWork isAdd config (digestPayload payload) filter world answers = .returned result after rest →
        result.2.name = filter.name := fun config payload filter => name_singleWork isAdd config _ filter
  unfold serveSingles
  rw [serveEach_map, serveEach_congr each, serveEach_withFilter kept some]
  congr 1
  funext filter
  rw [serveEach_map]

theorem handleBatch_eq_singles (daemon : Daemon) {name : Bytes} {payloads : List Bytes} (isAdd : Bool)
    (valid : nameIsValid name = true) (some : payloads ≠ [])
    (small : ∀ payload ∈ payloads, payload.length ≤ maxFrameBody) :
    Prod.map id Daemon.uncounted <$> handleBatch daemon name payloads isAdd =
      Prod.map Reply.counted Daemon.uncounted <$> serveSingles daemon name payloads isAdd := by
  rw [serveSingles_eq daemon isAdd valid some small]
  simp only [handleBatch, valid, Bool.not_true, Bool.false_eq_true, ↓reduceIte]
  apply withFilter_uncounted
  intro filter
  cases isAdd with
  | true => exact addBatch_eq_addEach (by simpa using some)
  | false => exact checkBatch_eq_checkEach _

/-- An OK reply with a one for each of so many items -/
def Reply.Ones (count : Nat) (reply : Reply) : Prop :=
  ∀ results, reply = .ok results → results = List.replicate count 1

theorem Reply.Failed.ones {reply : Reply} (failed : reply.Failed) (count : Nat) : reply.Ones count := by
  intro results same
  rw [same] at failed
  exact failed.elim

theorem returns_addDigest_one (filter : Filter) (digest : Digest) (mode : LogSyncMode) :
    Returns (addDigest filter digest mode) fun result => result.1.Ones 1 := by
  apply returns_bind (returns_prepareAdd filter mode)
  intro result failed
  obtain ⟨prepared, current⟩ := result
  cases prepared with
  | error reply => exact returns_pure (Reply.Failed.ones failed 1)
  | ok marked =>
    apply returns_bind (returns_addStaged current digest mode marked)
    intro result failed
    obtain ⟨added, later⟩ := result
    cases added with
    | error reply => exact returns_pure (Reply.Failed.ones failed 1)
    | ok done =>
      refine returns_pure fun results same => ?_
      cases same
      rfl

theorem returns_serveEach_ones {ι τ : Type} {work : ι → τ → Sys (Reply × τ)}
    (ones : ∀ item state, Returns (work item state) fun result => result.1.Ones 1) (items : List ι) :
    ∀ state, Returns (serveEach work items state) fun result => result.1.Ones items.length := by
  induction items with
  | nil =>
    intro state
    refine returns_pure fun results same => ?_
    cases same
    rfl
  | cons item rest ih =>
    intro state
    apply returns_bind (ones item state)
    intro result one
    obtain ⟨reply, later⟩ := result
    cases reply with
    | error status code message => exact returns_pure fun results wrong => by cases wrong
    | ok results =>
      dsimp only
      rw [map_eq_pure_bind]
      apply returns_bind (ih later)
      intro result more
      obtain ⟨reply, final⟩ := result
      refine returns_pure fun joined same => ?_
      cases reply with
      | error status code message => cases same
      | ok further =>
        cases same
        rw [one results rfl, more further rfl]
        rfl

theorem returns_withFilter_ones {daemon : Daemon} {name : Bytes} {work : Filter → Sys (Reply × Filter)} {count : Nat}
    (ones : ∀ filter, Returns (work filter) fun result => result.1.Ones count) :
    Returns (withFilter daemon name work) fun result => result.1.Ones count := by
  have missing : (Reply.error .notFound .none "filter not found").Ones count := fun results wrong => by cases wrong
  unfold withFilter
  dsimp only
  split
  · exact returns_pure missing
  · split
    · exact returns_pure missing
    · rename_i filter _
      apply returns_bind (ones filter)
      intro result one
      exact returns_pure one

theorem Reply.Ones.allOnes {reply : Reply} {count : Nat} (ones : reply.Ones count) :
    reply.counted = reply.allOnes count := by
  cases reply with
  | error status code message => rfl
  | ok results =>
    rw [ones results rfl]
    rfl

/-- A MADD leaves what the single ADDs of its items leave and answers with ones when all
of them succeed, or else as the one that failed; an MCHECK answers with the results of the
single CHECKs. Only the call counters differ. -/
theorem handleBatchBody_eq_serveSingles (daemon : Daemon) {body name : Bytes} {payloads : List Bytes}
    (parsed : parseItems body = some (name, payloads)) :
    Prod.map id Daemon.uncounted <$> handleBatchBody daemon body true =
        Prod.map (Reply.allOnes payloads.length) Daemon.uncounted <$> serveSingles daemon name payloads true ∧
      Prod.map id Daemon.uncounted <$> handleBatchBody daemon body false =
        Prod.map Reply.counted Daemon.uncounted <$> serveSingles daemon name payloads false := by
  obtain ⟨batch, taken, items⟩ := Option.bind_eq_some_iff.mp parsed
  obtain ⟨read, met, same⟩ := Option.map_eq_some_iff.mp items
  cases same
  have accepted := toOption_some taken
  obtain ⟨-, positive, -, -, valid, fields⟩ := parseBatch_ok accepted
  have whole := payloads_some met
  have counted : payloads.length = batch.itemCount := length_readItems whole
  have named : nameIsValid batch.name = true := by rw [fields, valid]
  have small := length_readItems_payload whole
  have some : payloads ≠ [] := by
    intro empty
    rw [empty, fields] at counted
    exact absurd counted.symm positive.ne'
  constructor
  · rw [handleBatchBody_eq daemon true accepted met, handleBatch_eq_singles daemon true named some small,
      serveSingles_eq daemon true named some small, map_eq_pure_bind, map_eq_pure_bind]
    apply bind_eq_of_yields (returns_withFilter_ones fun filter =>
      returns_serveEach_ones (fun digest filter => returns_addDigest_one filter digest daemon.config.logSyncMode)
        (payloads.map digestPayload) filter).yields
    intro result ones
    rw [List.length_map] at ones
    simp only [Prod.map, ones.allOnes]
  · rw [handleBatchBody_eq daemon false accepted met, handleBatch_eq_singles daemon false named some small]

/-- The items `a` and `b` for the filter `x` -/
def pairBody : Bytes := batchBody (bytes "x") [bytes "a", bytes "b"]

theorem handleBatchBody_eq_serveSingles_pair :
    parseItems pairBody = some (bytes "x", [bytes "a", bytes "b"]) ∧
    Prod.map id Daemon.uncounted <$> handleBatchBody oneFilter pairBody true =
        Prod.map (Reply.allOnes 2) Daemon.uncounted <$> serveSingles oneFilter (bytes "x")
          [bytes "a", bytes "b"] true ∧
      Prod.map id Daemon.uncounted <$> handleBatchBody oneFilter pairBody false =
        Prod.map Reply.counted Daemon.uncounted <$> serveSingles oneFilter (bytes "x")
          [bytes "a", bytes "b"] false := by
  have parsed : parseItems pairBody = some (bytes "x", [bytes "a", bytes "b"]) := by decide +kernel
  exact ⟨parsed, handleBatchBody_eq_serveSingles oneFilter parsed⟩

end Agreement

end Bloomd
