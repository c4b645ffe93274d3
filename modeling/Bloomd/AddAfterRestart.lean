import Bloomd.FailedAdd
import Bloomd.RootSpelling

/-! An ADD after a restart. The first durable write pins the map before it records that the
filter has data, so a crash between the two leaves a pin that the record does not own. The
loader takes the map and leaves the pin, and the next first write finds its path taken. -/

namespace Bloomd

open CrashLogic Prog

section Add

variable {roots : Config} {mode : LogSyncMode} {filter : Filter} {world : World}

theorem completes_of_returns {prog : Sys α} {good : α → Prop} (returns : Returns prog good) :
    Completes prog (fun value _ => good value) world := by
  apply returns.completes.easier
  rintro _ easy rfl
  exact easy

/-- The temporary file of a metadata write has a path that fits. -/
def FilterMeta.Roomy (metadata : FilterMeta) (pid : Nat) : Prop := (tempPath metadata.metaPath pid).length < pathMax

theorem writable_withState (body : (metaBody filter.metadata.toMetaRecord).length < 2048) (hasData logClean : Bool)
    (pid : Nat) :
    Writable (filter.metadata.withState hasData logClean) pid ↔ filter.metadata.Roomy pid := by
  unfold Writable
  rw [length_metaBody_withState]
  exact ⟨fun room => room.2, fun room => ⟨body, room⟩⟩

theorem completes_openFilterLog_create : Completes (openFilterLog filter true)
    (fun result after => result.1 = .ok () ∧ result.2.metadata = filter.metadata ∧ after.pid = world.pid) world := by
  have opens : Completes (logOpen filter.metadata.logPath true)
      (fun result after => result = .ok filter.metadata.logPath ∧ after.pid = world.pid) world := by
    apply completes_attempt
    split <;> exact ⟨rfl, rfl⟩
  apply completes_bind
  apply opens.mono
  rintro _ after ⟨rfl, pid⟩
  apply completes_bind
  exact completes_call fun answer _ => completes_pure _ ⟨rfl, rfl, pid⟩

/-- Without faults the first durable write succeeds if and only if its pin path is free and
the metadata write has room. -/
theorem completes_ensureFilterDurable (opened : filter.metadata.hasData = true → filter.logFd.isSome = true)
    (body : (metaBody filter.metadata.toMetaRecord).length < 2048) :
    Completes (ensureFilterDurable filter) (fun result _ => result.1 = .ok () ↔
      (filter.metadata.hasData = true ∨ world.pinAt filter.metadata.pinPath = none) ∧
      (filter.metadata.hasData = false → filter.metadata.Roomy world.pid)) world := by
  unfold ensureFilterDurable
  split
  · rename_i data
    obtain ⟨fd, there⟩ := Option.isSome_iff_exists.mp (opened data)
    simp only [there]
    apply completes_pure
    simp [data]
  · rename_i fresh
    simp only [fresh, false_or, Bool.false_eq_true, forall_const]
    apply completes_bind
    apply completes_bind
    apply completes_attempt
    cases taken : world.pinAt filter.metadata.pinPath with
    | some map =>
      apply completes_pure
      apply completes_pure
      simp
    | none =>
      apply completes_pure
      apply completes_bind
      apply completes_openFilterLog_create.mono
      rintro ⟨created, later⟩ middle ⟨rfl, same, pid⟩
      have same : later.metadata = filter.metadata := same
      have pid : middle.pid = world.pid := pid
      apply completes_bind
      apply completes_bind
      apply completes_metaWriteAtomic.mono
      intro written after succeeds
      rw [writable_withState (same ▸ body), same, pid] at succeeds
      cases written with
      | ok done => exact completes_pure _ (completes_pure _ ⟨fun _ => ⟨rfl, succeeds.mp rfl⟩, fun _ => rfl⟩)
      | error errno =>
        apply completes_pure
        apply completes_bind
        apply (completes_of_returns (returns_logDelete later.metadata.logPath)).mono
        intro _ _ _
        apply completes_bind
        apply (completes_of_returns (returns_bpfUnpin later.metadata.pinPath)).mono
        intro _ _ _
        apply completes_pure
        exact ⟨nofun, fun held => nomatch succeeds.mpr held.2⟩

theorem completes_markFilterLogDirty (data : filter.metadata.hasData = true)
    (body : (metaBody filter.metadata.toMetaRecord).length < 2048) :
    Completes (markFilterLogDirty filter) (fun result _ => (∃ changed, result.1 = .ok changed) ↔
      (filter.metadata.logClean = true → filter.metadata.Roomy world.pid)) world := by
  unfold markFilterLogDirty
  split
  · rename_i unneeded
    have dirty : filter.metadata.logClean = false := by simpa [data] using unneeded
    apply completes_pure
    simp [dirty]
  · rename_i needed
    have clean : filter.metadata.logClean = true := by simpa [data] using needed
    apply completes_bind
    apply completes_bind
    apply completes_metaWriteAtomic.mono
    intro written after succeeds
    rw [writable_withState body] at succeeds
    cases written with
    | ok done =>
      apply completes_pure
      exact completes_pure _ ⟨fun _ _ => succeeds.mp rfl, fun _ => ⟨true, rfl⟩⟩
    | error errno =>
      apply completes_pure
      exact completes_pure _ ⟨nofun, fun held => nomatch succeeds.mpr (held clean)⟩

/-- Nothing stands in the way of an ADD: a filter without data finds its pin path free, and
the metadata can be written where an ADD writes them. -/
def Filter.Addable (filter : Filter) (mode : LogSyncMode) (world : World) : Prop :=
  (filter.metadata.hasData = true ∨ world.pinAt filter.metadata.pinPath = none) ∧
  (filter.metadata.hasData = false ∨ (mode = .periodic ∧ filter.metadata.logClean = true) →
    filter.metadata.Roomy world.pid)

theorem completes_prepareAdd (seated : Seated roots filter)
    (serves : Serves roots mode filter (world.view roots filter.name)) :
    Completes (prepareAdd filter mode)
      (fun result _ => (∃ marked, result.1 = .ok marked) ↔ filter.Addable mode world) world := by
  have opened : filter.metadata.hasData = true → filter.logFd.isSome = true := fun data => by
    rw [serves.opened data]
    rfl
  have durable := wp_within filter.name (keeps_ensureFilterDurable seated)
    (@wp_ensureFilterDurable world roots filter serves.placed serves.proper.pinPath opened)
  have body := serves.proper.body
  apply completes_bind
  apply ((completes_ensureFilterDurable opened body).covered durable).mono
  rintro ⟨ensured, later⟩ middle ⟨succeeds, outcome, -, within⟩
  have pid : middle.pid = world.pid := within.pid
  cases ensured with
  | error failure =>
    apply completes_pure
    constructor
    · rintro ⟨marked, impossible⟩
      cases impossible
    · intro addable
      cases succeeds.mpr ⟨addable.1, fun fresh => addable.2 (Or.inl fresh)⟩
  | ok done =>
    obtain ⟨free, room⟩ := succeeds.mp rfl
    have marks : later.metadata.hasData = true ∧ (metaBody later.metadata.toMetaRecord).length < 2048 ∧
        ((later.metadata.logClean = true → later.metadata.Roomy middle.pid) ↔
          (filter.metadata.hasData = false ∨ filter.metadata.logClean = true → filter.metadata.Roomy world.pid)) := by
      generalize middle.view roots filter.name = view at outcome
      rw [pid]
      cases outcome with
      | already data =>
        refine ⟨data, body, ?_⟩
        have durable : later.metadata.hasData = true := data
        simp [durable]
      | first fresh _ now =>
        refine ⟨rfl, ?_, ?_⟩
        · rw [length_metaBody_withState]
          exact body
        · exact ⟨fun _ _ => room fresh, fun _ _ => room fresh⟩
    obtain ⟨data, length, clean⟩ := marks
    cases mode with
    | always =>
      apply completes_pure
      constructor
      · intro _
        refine ⟨free, fun needed => room ?_⟩
        exact needed.resolve_right fun periodic => LogSyncMode.noConfusion periodic.1
      · exact fun _ => ⟨false, rfl⟩
    | periodic =>
      apply completes_bind
      apply (completes_markFilterLogDirty data length).mono
      rintro ⟨marked, last⟩ after marks
      rw [clean] at marks
      have addable : filter.Addable .periodic world ↔
          (filter.metadata.hasData = false ∨ filter.metadata.logClean = true → filter.metadata.Roomy world.pid) := by
        unfold Filter.Addable
        simp only [true_and, free]
      cases marked with
      | error failure =>
        apply completes_pure
        constructor
        · rintro ⟨changed, impossible⟩
          cases impossible
        · intro held
          obtain ⟨changed, impossible⟩ := marks.mpr (addable.mp held)
          cases impossible
      | ok changed => exact completes_pure _ ⟨fun _ => addable.mpr (marks.mp ⟨changed, rfl⟩), fun _ => ⟨changed, rfl⟩⟩

theorem completes_stageDigestForAdd {path : Bytes} {log : LogFile} (opened : filter.logFd = some path)
    (present : world.logAt path = some log) (room : filter.logBuf.length ≤ logBufferCap) (digest : Digest) :
    Completes (stageDigestForAdd filter digest mode) (fun result _ => ∃ stage, result.1 = .ok stage) world := by
  have sizes : Completes (stageFileSize filter mode)
      (fun result after => (∃ size, result = .ok size) ∧ after = world) world := by
    cases mode with
    | periodic => exact completes_pure _ ⟨⟨0, rfl⟩, rfl⟩
    | always =>
      unfold stageFileSize
      rw [opened]
      exact completes_attempt ⟨⟨_, rfl⟩, rfl⟩
  apply completes_bind
  apply sizes.mono
  rintro _ _ ⟨⟨size, rfl⟩, rfl⟩
  apply completes_bind
  rw [opened]
  apply (completes_logBufferAppend present filter.logBuf room digest).mono
  rintro _ middle ⟨written, kept, rfl, -, now⟩
  cases mode with
  | periodic => exact completes_pure _ ⟨_, rfl⟩
  | always =>
    apply completes_bind
    apply (completes_logBufferFlush now.now kept true).mono
    rintro _ after ⟨rfl, -⟩
    exact completes_pure _ ⟨_, rfl⟩

theorem completes_addStaged {path : Bytes} {log : LogFile} (opened : filter.logFd = some path)
    (present : world.logAt path = some log) (room : filter.logBuf.length ≤ logBufferCap) (digest : Digest)
    (undo : Bool) :
    Completes (addStaged filter digest mode undo) (fun result _ => result.1 = .ok ()) world := by
  apply completes_bind
  apply (completes_stageDigestForAdd opened present room digest).mono
  rintro ⟨_, later⟩ middle ⟨stage, rfl⟩
  apply completes_bind
  apply completes_bind
  apply completes_attempt
  apply completes_pure
  cases mode with
  | periodic => exact completes_bind (completes_pure _ (completes_pure _ rfl))
  | always =>
    apply completes_bind
    apply completes_bind
    exact completes_call fun answer _ => completes_pure _ (completes_pure _ rfl)

/-- Without faults an ADD succeeds if and only if nothing stands in its way. -/
theorem completes_addDigest {history : List Digest} (seated : Seated roots filter)
    (live : Live none roots mode filter history (world.view roots filter.name)) (digest : Digest) :
    Completes (addDigest filter digest mode)
      (fun result _ => result.1.status = .ok ↔ filter.Addable mode world) world := by
  have prepares := (wp_prepareAdd live (fun aimed => nomatch aimed)).and ((returns_prepareAdd filter mode).wp world)
  apply completes_bind
  apply ((completes_prepareAdd seated live.serves).covered prepares).mono
  rintro ⟨prepared, later⟩ middle ⟨succeeds, ⟨named, -, -, -, adding⟩, failed⟩
  cases prepared with
  | error reply =>
    apply completes_pure
    constructor
    · exact fun status => absurd status (Reply.Failed.error failed).2
    · intro addable
      obtain ⟨marked, impossible⟩ := succeeds.mpr addable
      cases impossible
  | ok marked =>
    have adding := adding marked rfl
    have serves := adding.live.serves
    have named : later.name = filter.name := named
    obtain ⟨log, present⟩ := serves.logged adding.data
    rw [← named] at present
    apply completes_bind
    apply (completes_addStaged (serves.opened adding.data) present serves.room digest marked).mono
    rintro ⟨_, last⟩ after rfl
    exact completes_pure _ ⟨fun _ => succeeds.mp ⟨marked, rfl⟩, fun _ => rfl⟩

end Add

section Restart

variable {env : Env} {roots : Config} {mode : LogSyncMode} {name payload : Bytes} {record : MetaRecord} {world : World}

/-- What a startup makes of a record: it serves the filter, and a filter without data keeps
whatever is pinned at its path. -/
structure Reloaded (roots : Config) (name : Bytes) (record : MetaRecord) (world : World) (filters : List Filter)
    (later : World) : Prop where
  served : ∃ filter ∈ filters, filter.metadata.toMetaRecord = record
  pid : later.pid = world.pid
  pin : record.hasData = false → later.pinAt (roots.pinPathOf name) = world.pinAt (roots.pinPathOf name)

theorem Reloaded.turn (accepted : Accepted roots name record world)
    (stored : Stored roots name record (world.view roots name)) (readable : env.reads (roots.metaPathOf name) = .ok) :
    Turn env roots mode name (Apart name world) (Reloaded roots name record world) (fun _ => True) where
  valid := accepted.valid
  fits := accepted.fits
  before_apart apart held := IsTrans.trans _ _ _ held apart
  after_apart apart held :=
    ⟨held.served, apart.pid.trans held.pid, fun fresh =>
      (apart.pinAt (leaf_pinPathOf roots accepted.valid)).trans (held.pin fresh)⟩
  crash_apart _ _ := trivial
  crash_changeLog _ _ _ := trivial
  begins _ := trivial
  ends _ := trivial
  turn {loading begun} apart missing valids := by
    have again := accepted.of_file (apart.fileAt accepted.valid roots)
    have proper := stored.proper
    have pins := apart.pinAt (leaf_pinPathOf roots accepted.valid)
    have turns : wp (loadRecord env (roots.withMode mode) (roots.metaPathOf name) name loading)
        (fun result later => result.1 = .ok () →
          (∃ filter ∈ result.2.set.named name, filter.metadata.toMetaRecord = record) ∧
          (record.hasData = false → later.pinAt (roots.pinPathOf name) = world.pinAt (roots.pinPathOf name)))
        (fun _ => True) begun := by
      apply wp_loadRecord_accepted again readable trivial
      · intro failure impossible
        cases impossible
      · intro short
        have named : (roots.loadedMeta name record).name = name := accepted.named
        have placed : Placed (roots.withMode mode) (roots.loadedMeta name record) := by
          refine ⟨named ▸ accepted.valid, ?_, ?_, accepted.leaf.trans named.symm⟩
          · rw [named]
            rfl
          · rw [named]
            rfl
        have pinPath : (roots.loadedMeta name record).pinPath =
            (roots.withMode mode).pinPathOf (roots.loadedMeta name record).name := by
          rw [named]
          exact proper.pinPath
        have logged : (roots.loadedMeta name record).hasData = true →
            ∃ log, (begun.view (roots.withMode mode) (roots.loadedMeta name record).name).log = some log := by
          intro data
          obtain ⟨log, present⟩ := stored.logged data
          rw [named]
          exact ⟨log, (apart.logAt accepted.valid roots).trans present⟩
        have opens := wp_openOrRebuild placed pinPath logged
        rw [named] at opens
        apply opens.mono _ fun _ _ => trivial
        intro opened middle outcome
        have admits : ∀ map unpin, (record.hasData = false → middle.pinAt (roots.pinPathOf name) =
            begun.pinAt (roots.pinPathOf name)) →
            wp (admitLoaded loading (roots.metaPathOf name) (roots.loadedMeta name record) map unpin)
              (fun result later => result.1 = .ok () →
                (∃ filter ∈ result.2.set.named name, filter.metadata.toMetaRecord = record) ∧
                (record.hasData = false → later.pinAt (roots.pinPathOf name) = world.pinAt (roots.pinPathOf name)))
              (fun _ => True) middle := by
          intro map unpin kept
          apply (wp_admitLoaded_exact accepted.valid accepted.named missing valids).mono _ fun _ _ => trivial
          rintro result last ⟨_, done⟩ succeeded
          obtain ⟨_, rfl, now, items⟩ := done succeeded
          constructor
          · refine ⟨roots.loaded name record map now, FilterSet.mem_named.mpr ⟨?_, accepted.named⟩, rfl⟩
            rw [items]
            exact List.mem_append_right _ (List.mem_singleton_self _)
          · intro fresh
            rw [World.opened, fresh, if_neg Bool.false_ne_true]
            exact (kept fresh).trans pins
        generalize viewed : middle.view (roots.withMode mode) name = view at outcome
        have pin : middle.pinAt (roots.pinPathOf name) = view.pin := congrArg View.pin viewed
        cases outcome with
        | pinned map there => exact admits map false fun _ => pin
        | created fresh free => exact admits _ false fun _ => pin
        | rebuilt data clean log log' present trimmed =>
          exact admits _ true fun fresh => Bool.noConfusion (data.symm.trans fresh)
        | failed failure after prepared =>
          apply (wp_pure _).mpr
          intro impossible
          cases impossible
    have stays := @staysWithin_loadRecord roots mode name env accepted.valid loading
    apply (wp_within name stays turns).mono _ fun _ _ => trivial
    rintro result later ⟨done, -, within⟩
    refine ⟨trivial, fun succeeded => ?_⟩
    obtain ⟨served, kept⟩ := done succeeded
    exact ⟨served, within.pid.trans apart.pid, kept⟩

theorem startup_reloaded {daemon : Daemon} {loaded : World} {answers rest : List Answer} {filter : Filter}
    (stored : Stored roots filter.name record (world.view roots filter.name))
    (present : world.fileAt (roots.metaPathOf filter.name) = some (some record))
    (started : startup env (roots.withMode mode) world answers = .returned (.ok daemon) loaded rest)
    (unique : (daemon.set.items.map Filter.name).Nodup) (member : filter ∈ daemon.set.items) :
    daemon.config = roots.withMode mode ∧ filter.metadata.toMetaRecord = record ∧
      Reloaded roots filter.name record world [filter] loaded := by
  obtain ⟨readable, read, accepted, -⟩ := wp_startup_loadable.returned started daemon rfl filter member
  obtain ⟨other, there, decoded⟩ := accepted.decoded
  obtain rfl : other = record := Option.some.inj (Option.some.inj (there.symm.trans present))
  obtain rfl : read = other :=
    readBack_under_root accepted.valid stored.proper.pinPath decoded accepted.under
  have own : Accepted roots filter.name read world := { accepted with }
  have turn := @Reloaded.turn env roots mode filter.name read world own stored readable
  have served : daemon.set.named filter.name ≠ [] := List.ne_nil_of_mem (FilterSet.mem_named.mpr ⟨member, rfl⟩)
  have spec := turn.wp_startup (listed_of_served started served) (refl world) fun _ held => by
    obtain ⟨_, inside, _⟩ := held.served
    exact absurd inside List.not_mem_nil
  obtain ⟨config, -, reloaded⟩ := (spec.returned started).2 daemon rfl
  obtain ⟨twin, inside, same⟩ := reloaded.served
  obtain ⟨inside, named⟩ := FilterSet.mem_named.mp inside
  obtain rfl := List.inj_on_of_nodup_map unique inside member named
  exact ⟨config, same, ⟨twin, List.mem_singleton_self _, same⟩, reloaded.pid, reloaded.pin⟩

/-- What a restart succeeds with is what a run goes on with. -/
theorem serving_of_restart [Libm] {actions : List Action} {daemon : Daemon} {loaded : World} {pid : Nat}
    {answers rest : List Answer} (rooted : ∀ action ∈ actions, action.KeepsRoots roots)
    (stopped : (State.initial.run actions).daemon = none)
    (started : startup env (roots.withMode mode) { (State.initial.run actions).world with pid } answers =
      .returned (.ok daemon) loaded rest) :
    ∃ added, Serving (historyUpkeep roots none) daemon added loaded := by
  have more : ∀ action ∈ actions ++ [.restart env (roots.withMode mode) pid answers], action.KeepsRoots roots := by
    intro action member
    rcases List.mem_append.mp member with before | last
    · exact rooted action before
    · rw [List.mem_singleton.mp last]
      rfl
  have reached : State.initial.run (actions ++ [.restart env (roots.withMode mode) pid answers]) =
      ⟨loaded, some daemon, (State.initial.run actions).added⟩ := by
    have last : State.initial.run (actions ++ [.restart env (roots.withMode mode) pid answers]) =
        (State.initial.run actions).step (.restart env (roots.withMode mode) pid answers) := by
      simp [State.run]
    rw [last]
    simp only [State.step, stopped, started]
    rfl
  have serving := serving_of_run more (congrArg State.daemon reached)
  rw [reached] at serving
  exact ⟨_, serving⟩

theorem completes_withFilter_member {daemon : Daemon} {filter : Filter} {added : Bytes → List Digest}
    {upkeep : Upkeep roots} {work : Filter → Sys (Reply × Filter)} (good : Reply → Prop)
    (serving : Serving upkeep daemon added world) (member : filter ∈ daemon.set.items)
    (works : Completes (work filter) (fun result _ => good result.1) world) :
    Completes (withFilter daemon filter.name work) (fun result _ => good result.1) world := by
  obtain ⟨index, located, found⟩ := findN_member serving.tended.unique serving.named member
  unfold withFilter
  simp only [located, FilterSet.findN_items, found]
  apply completes_bind
  apply works.mono
  exact fun result after held => completes_pure _ held

/-- An ADD after a restart is decided by what the run left on disk. -/
theorem completes_add_restarted [Libm] {actions : List Action} {daemon : Daemon} {loaded : World} {pid : Nat}
    {answers rest : List Answer} {filter : Filter}
    (rooted : ∀ action ∈ actions, action.KeepsRoots roots) (stopped : (State.initial.run actions).daemon = none)
    (started : startup env (roots.withMode mode) { (State.initial.run actions).world with pid } answers =
      .returned (.ok daemon) loaded rest)
    (member : filter ∈ daemon.set.items)
    (present : (State.initial.run actions).world.fileAt (roots.metaPathOf filter.name) = some (some record)) :
    Completes (handle daemon (.add filter.name payload)) (fun result _ => result.1.status = .ok ↔
      (record.hasData = true ∨ (State.initial.run actions).world.pinAt (roots.pinPathOf filter.name) = none) ∧
      (record.hasData = false ∨ (mode = .periodic ∧ record.logClean = true) →
        (tempPath (roots.metaPathOf filter.name) pid).length < pathMax)) loaded := by
  obtain ⟨added, serving⟩ := serving_of_restart rooted stopped started
  have live := serving.tended.live filter member
  have valid := live.serves.placed.valid
  have stored := stored_of_run rooted stopped valid present
  obtain ⟨config, same, reloaded⟩ := @startup_reloaded env roots mode record
    { (State.initial.run actions).world with pid } daemon loaded answers rest filter stored present started
    serving.tended.unique member
  have periodic : daemon.config.logSyncMode = mode := by rw [config]; rfl
  rw [periodic] at live
  have addable : filter.Addable mode loaded ↔
      (record.hasData = true ∨ (State.initial.run actions).world.pinAt (roots.pinPathOf filter.name) = none) ∧
      (record.hasData = false ∨ (mode = .periodic ∧ record.logClean = true) →
        (tempPath (roots.metaPathOf filter.name) pid).length < pathMax) := by
    have hasData : filter.metadata.hasData = record.hasData := congrArg MetaRecord.hasData same
    have logClean : filter.metadata.logClean = record.logClean := congrArg MetaRecord.logClean same
    have pinPath : filter.metadata.pinPath = roots.pinPathOf filter.name := live.serves.proper.pinPath
    have metaPath : filter.metadata.metaPath = roots.metaPathOf filter.name := live.serves.placed.file
    have process : loaded.pid = pid := reloaded.pid
    unfold Filter.Addable FilterMeta.Roomy
    rw [hasData, logClean, pinPath, metaPath, process]
    apply and_congr_left
    intro _
    cases data : record.hasData with
    | true => simp
    | false =>
      simp only [Bool.false_eq_true, false_or]
      rw [reloaded.pin data]
      rfl
  rw [← addable]
  change Completes (handleAddCheck daemon filter.name payload true) _ loaded
  unfold handleAddCheck
  simp only [valid, Bool.not_true, Bool.false_eq_true, ↓reduceIte]
  apply completes_withFilter_member (fun reply => reply.status = .ok ↔ filter.Addable mode loaded) serving member
  rw [periodic]
  exact completes_addDigest (serving.tended.settled filter member).seated live (digestPayload payload)

/-- After any run that a crash or a shutdown ended, and a restart that succeeded, an ADD to
a filter of the restarted daemon succeeds without faults if and only if the filter had data
on disk or no pin, and the metadata can be written where the ADD writes them. -/
theorem add_after_restart_iff [Libm] {actions : List Action} {daemon : Daemon} {loaded : World} {pid : Nat}
    {answers rest : List Answer} {filter : Filter}
    (rooted : ∀ action ∈ actions, action.KeepsRoots roots) (stopped : (State.initial.run actions).daemon = none)
    (started : startup env (roots.withMode mode) { (State.initial.run actions).world with pid } answers =
      .returned (.ok daemon) loaded rest)
    (member : filter ∈ daemon.set.items)
    (present : (State.initial.run actions).world.fileAt (roots.metaPathOf filter.name) = some (some record)) :
    (∀ payload, Completes (handle daemon (.add filter.name payload)) (fun result _ => result.1.status = .ok) loaded) ↔
      (record.hasData = true ∨ (State.initial.run actions).world.pinAt (roots.pinPathOf filter.name) = none) ∧
      (record.hasData = false ∨ (mode = .periodic ∧ record.logClean = true) →
        (tempPath (roots.metaPathOf filter.name) pid).length < pathMax) := by
  have adds : ∀ payload, Completes (handle daemon (.add filter.name payload)) _ loaded :=
    fun payload => completes_add_restarted rooted stopped started member present
  constructor
  · intro succeeds
    obtain ⟨_, _, _, held, _⟩ := ((succeeds []).and (adds [])).run (fun _ => .ok) fun _ => trivial
    exact held.2.mp held.1
  · exact fun held payload => (adds payload).mono fun _ _ succeeds => succeeds.mpr held

end Restart

/-- A filter was created, and the daemon crashed in its first durable write. -/
def cutRun (written : List Answer) : List Action :=
  [.restart .plain demoRoots 7 plenty, .request demoCreate plenty, .request (.add demoName (bytes "a")) written]

theorem cutRun_rooted (written : List Answer) : ∀ action ∈ cutRun written, action.KeepsRoots demoRoots := by
  intro action member
  simp only [cutRun, List.mem_cons, List.not_mem_nil, or_false] at member
  rcases member with rfl | rfl | rfl
  · rfl
  · trivial
  · trivial

/-- The restart serves the filter from the record without data. -/
theorem cutRun_restarts {written : List Answer}
    (served : ((startup .plain (demoRoots.withMode .always)
      { (@State.run exactLibm .initial (cutRun written)).world with pid := 7 } plenty).value.map fun result =>
        result.toOption.map fun daemon => daemon.set.items.map Filter.name) = some (some [demoName])) :
    ∃ daemon loaded rest filter,
      startup .plain (demoRoots.withMode .always)
        { (@State.run exactLibm .initial (cutRun written)).world with pid := 7 }
        plenty = .returned (.ok daemon) loaded rest ∧ filter ∈ daemon.set.items ∧ filter.name = demoName := by
  obtain ⟨result, loaded, rest, started, seen⟩ := Stop.returned_of_value served
  cases result with
  | error failure => cases seen
  | ok daemon =>
    have names : daemon.set.items.map Filter.name = [demoName] := Option.some.inj seen
    have inside : demoName ∈ daemon.set.items.map Filter.name := by
      rw [names]
      exact List.mem_singleton_self _
    obtain ⟨filter, member, named⟩ := List.mem_map.mp inside
    exact ⟨daemon, loaded, rest, filter, started, member, named⟩

/-- The pin was made and nothing after it: every ADD fails after the restart. -/
theorem crashed_first_write_wedges : ∃ daemon loaded rest filter,
    (∀ action ∈ cutRun [.ok], action.KeepsRoots demoRoots) ∧
    (@State.run exactLibm .initial (cutRun [.ok])).daemon = none ∧
    startup .plain (demoRoots.withMode .always) { (@State.run exactLibm .initial (cutRun [.ok])).world with pid := 7 }
      plenty = .returned (.ok daemon) loaded rest ∧
    filter ∈ daemon.set.items ∧
    ∀ payload, Completes (@handle exactLibm daemon (.add filter.name payload))
      (fun result _ => result.1.status ≠ .ok) loaded := by
  obtain ⟨daemon, loaded, rest, filter, started, member, named⟩ := @cutRun_restarts [.ok] (by decide +kernel)
  have stopped : (@State.run exactLibm .initial (cutRun [.ok])).daemon = none :=
    Option.isNone_iff_eq_none.mp (by decide +kernel)
  have fresh : (@State.run exactLibm .initial (cutRun [.ok])).world.fileAt (demoRoots.metaPathOf demoName) =
      some (some { unpinnedRecord true with hasData := false }) := by decide +kernel
  have pinned : (@State.run exactLibm .initial (cutRun [.ok])).world.pinAt (demoRoots.pinPathOf demoName) ≠ none := by
    decide +kernel
  refine ⟨daemon, loaded, rest, filter, cutRun_rooted _, stopped, started, member, fun payload => ?_⟩
  have adds := @completes_add_restarted .plain demoRoots .always payload _ exactLibm
    (cutRun [.ok]) daemon loaded 7 plenty rest filter (cutRun_rooted _) stopped started member (named ▸ fresh)
  apply adds.mono
  intro result after decided succeeded
  rcases (decided.mp succeeded).1 with data | free
  · cases data
  · rw [named] at free
    exact pinned free

/-- The daemon crashed before the pin was made. -/
theorem add_after_restart_uncut : ∃ daemon loaded rest filter,
    startup .plain (demoRoots.withMode .always) { (@State.run exactLibm .initial (cutRun [])).world with pid := 7 }
      plenty = .returned (.ok daemon) loaded rest ∧
    filter ∈ daemon.set.items ∧
    ∀ payload, Completes (@handle exactLibm daemon (.add filter.name payload))
      (fun result _ => result.1.status = .ok) loaded := by
  obtain ⟨daemon, loaded, rest, filter, started, member, named⟩ := @cutRun_restarts [] (by decide +kernel)
  have stopped : (@State.run exactLibm .initial (cutRun [])).daemon = none :=
    Option.isNone_iff_eq_none.mp (by decide +kernel)
  have fresh : (@State.run exactLibm .initial (cutRun [])).world.fileAt (demoRoots.metaPathOf demoName) =
      some (some { unpinnedRecord true with hasData := false }) := by decide +kernel
  have free : (@State.run exactLibm .initial (cutRun [])).world.pinAt (demoRoots.pinPathOf demoName) = none := by
    decide +kernel
  refine ⟨daemon, loaded, rest, filter, started, member, ?_⟩
  apply (@add_after_restart_iff .plain demoRoots .always _ exactLibm (cutRun []) daemon loaded 7 plenty rest filter
    (cutRun_rooted _) stopped started member (named ▸ fresh)).mpr
  rw [named]
  exact ⟨Or.inr free, fun _ => by decide⟩

end Bloomd
