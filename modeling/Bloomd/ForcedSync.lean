import Bloomd.RequestCompletion
import Bloomd.RecoveryInvariant

/-! What a forced sync in which every call succeeds makes of the filters of a
`periodic` session. A sync visits only the filters that are marked dirty, so one
that lost the mark while its clean flag was off keeps the flag off. -/

namespace Bloomd

open CrashLogic Prog

/-- A filter of a `periodic` session: what is left in its buffer is marked, and a
flag that this process cleared was written by it, so that it can be written again. -/
structure Buffered (filter : Filter) (pid : Nat) : Prop where
  marked : filter.logBuf ≠ [] → filter.logDirty = true
  written : filter.metadata.hasData = true → filter.logHistoryIncomplete = false →
    filter.metadata.logClean = false → (tempPath filter.metadata.metaPath pid).length < pathMax

section Steps

variable {filter : Filter} {pid : Nat} {world : World} {roots : Config}

/-- A flag that is set needs no writing. -/
theorem Buffered.flagged (buffered : Buffered filter pid) (hasData : Bool) :
    Buffered { filter with metadata := filter.metadata.withState hasData true } pid :=
  ⟨buffered.marked, nofun⟩

theorem Buffered.emptied (buffered : Buffered filter pid) (fd : Option Bytes) (dirty : Bool) (now : Nat) :
    Buffered { filter with logFd := fd, logBuf := [], logDirty := dirty, lastLogSyncMs := now } pid :=
  ⟨fun full => absurd rfl full, buffered.written⟩

theorem Buffered.remarked (buffered : Buffered filter pid) (buf : Bytes) :
    Buffered { filter with logBuf := buf, logDirty := true } pid :=
  ⟨fun _ => rfl, buffered.written⟩

theorem wp_metaWriteAtomic_fits (metadata : FilterMeta) :
    wp (metaWriteAtomic metadata)
      (fun result _ => result = .ok () → (tempPath metadata.metaPath world.pid).length < pathMax)
      (fun _ => True) world := by
  unfold metaWriteAtomic
  split
  · exact (wp_pure _).mpr nofun
  · apply wp_bind
    apply (wp_inspect _).mpr
    simp only
    split
    · exact (wp_pure _).mpr nofun
    · rename_i room
      exact (wp_trivial _).mono (fun _ _ _ _ => by omega) fun _ held => held

theorem wp_updateFilterMetaState_fits (hasData logClean : Bool) :
    wp (updateFilterMetaState filter hasData logClean)
      (fun result _ => result.2 = filter ∨
        (result.2 = { filter with metadata := filter.metadata.withState hasData logClean } ∧
          (tempPath filter.metadata.metaPath world.pid).length < pathMax))
      (fun _ => True) world := by
  apply wp_bind
  apply (wp_metaWriteAtomic_fits _).mono _ fun _ held => held
  intro result after fits
  cases result with
  | error errno => exact (wp_pure _).mpr (Or.inl rfl)
  | ok done => exact (wp_pure _).mpr (Or.inr ⟨rfl, fits rfl⟩)

theorem wp_openFilterLog_buffered (buffered : Buffered filter pid) (truncate : Bool) :
    wp (openFilterLog filter truncate) (fun result after => Buffered result.2 pid ∧ after.pid = world.pid)
      (fun _ => True) world := by
  have opens : wp (logOpen filter.metadata.logPath truncate) (fun _ after => after.pid = world.pid)
      (fun _ => True) world := by
    cases truncate with
    | false =>
      apply wp_attempt trivial fun _ _ => rfl
      split
      · rfl
      · rfl
    | true =>
      apply wp_attempt trivial fun _ _ => rfl
      split
      · rfl
      · rfl
  apply wp_bind
  apply opens.mono _ fun _ held => held
  intro result after same
  cases result with
  | error errno => exact (wp_pure _).mpr ⟨⟨buffered.marked, buffered.written⟩, same⟩
  | ok fd =>
    apply wp_bind
    apply (wp_call _).mpr
    exact ⟨trivial, fun _ => (wp_pure _).mpr ⟨buffered.emptied _ _ _, same⟩⟩

theorem wp_ensureFilterDurable_buffered (buffered : Buffered filter pid) :
    wp (ensureFilterDurable filter) (fun result _ => Buffered result.2 pid) (fun _ => True) world := by
  unfold ensureFilterDurable
  split
  · split
    · exact (wp_openFilterLog_buffered buffered false).mono (fun _ _ held => held.1) fun _ held => held
    · exact (wp_pure _).mpr buffered
  · apply wp_bind
    apply (wp_trivial _).mono _ fun _ held => held
    intro pinned _ _
    cases pinned with
    | error failure => exact (wp_pure _).mpr buffered
    | ok done =>
      apply wp_bind
      apply (wp_openFilterLog_buffered buffered true).mono _ fun _ held => held
      rintro ⟨opened, middle⟩ _ ⟨held, _⟩
      cases opened with
      | error failure =>
        apply wp_bind
        exact (wp_trivial _).mono (fun _ _ _ => (wp_pure _).mpr held) fun _ held => held
      | ok done =>
        apply wp_bind
        apply (wp_updateFilterMetaState_fits true true).mono _ fun _ held => held
        rintro ⟨updated, later⟩ _ outcome
        have kept : Buffered later pid := by
          rcases outcome with rfl | ⟨rfl, _⟩
          · exact held
          · exact held.flagged true
        cases updated with
        | ok done => exact (wp_pure _).mpr kept
        | error failure =>
          apply wp_bind
          apply (wp_trivial _).mono _ fun _ held => held
          intro _ _ _
          apply wp_bind
          exact (wp_trivial _).mono (fun _ _ _ => (wp_pure _).mpr ⟨kept.marked, kept.written⟩) fun _ held => held

theorem wp_markFilterLogDirty_buffered (buffered : Buffered filter world.pid) :
    wp (markFilterLogDirty filter) (fun result _ => Buffered result.2 world.pid) (fun _ => True) world := by
  unfold markFilterLogDirty
  split
  · exact (wp_pure _).mpr buffered
  · apply wp_bind
    apply (wp_updateFilterMetaState_fits true false).mono _ fun _ held => held
    rintro ⟨updated, later⟩ _ outcome
    have kept : Buffered later world.pid := by
      rcases outcome with rfl | ⟨rfl, fits⟩
      · exact buffered
      · exact ⟨buffered.marked, fun _ _ _ => fits⟩
    cases updated with
    | ok done => exact (wp_pure _).mpr kept
    | error failure => exact (wp_pure _).mpr kept

theorem wp_prepareAdd_buffered (seated : Seated roots filter) (buffered : Buffered filter world.pid) :
    wp (prepareAdd filter .periodic) (fun result _ => Buffered result.2 world.pid) (fun _ => True) world := by
  apply wp_bind
  apply (wp_within filter.name (keeps_ensureFilterDurable seated) (wp_ensureFilterDurable_buffered buffered)).mono
    _ fun _ _ => trivial
  rintro ⟨durable, middle⟩ after ⟨kept, _, within⟩
  cases durable with
  | error failure => exact (wp_pure _).mpr kept
  | ok done =>
    apply wp_bind
    have same : after.pid = world.pid := within.pid
    rw [← same] at kept
    apply (wp_markFilterLogDirty_buffered kept).mono _ fun _ held => held
    rintro ⟨marked, later⟩ _ held
    rw [same] at held
    cases marked with
    | error failure => exact (wp_pure _).mpr held
    | ok changed => exact (wp_pure _).mpr held

theorem wp_undoMark_buffered (buffered : Buffered filter pid) (undo : Bool) :
    wp (undoMark filter undo) (fun later _ => Buffered later pid) (fun _ => True) world := by
  unfold undoMark
  split
  · apply wp_bind
    apply (wp_updateFilterMetaState_fits true true).mono _ fun _ held => held
    rintro ⟨updated, later⟩ _ outcome
    apply (wp_pure _).mpr
    rcases outcome with rfl | ⟨rfl, _⟩
    · exact buffered
    · exact buffered.flagged true
  · exact (wp_pure _).mpr buffered

/-- Staging remembers the length of the buffer and the mark. -/
theorem wp_stageDigestForAdd_periodic (digest : Digest) :
    wp (stageDigestForAdd filter digest .periodic)
      (fun result _ => match result.1 with
        | .error _ => result.2 = filter
        | .ok stage => stage.prevBufLen = filter.logBuf.length ∧ stage.prevDirty = filter.logDirty ∧
            ∃ buf, result.2 = { filter with logBuf := buf })
      (fun _ => True) world := by
  have appends : wp (logBufferAppend filter.logFd filter.logBuf digest)
      (fun result _ => result.1 ≠ .ok () → result.2 = filter.logBuf) (fun _ => True) world := by
    unfold logBufferAppend
    split
    · exact (wp_pure _).mpr fun _ => rfl
    · split
      · exact (wp_pure _).mpr fun _ => rfl
      · split
        · apply wp_bind
          apply (wp_trivial _).mono _ fun _ held => held
          intro written _ _
          cases written with
          | error errno => exact (wp_pure _).mpr fun _ => rfl
          | ok done => exact (wp_pure _).mpr fun failed => absurd rfl failed
        · exact (wp_pure _).mpr fun failed => absurd rfl failed
  unfold stageDigestForAdd
  apply wp_bind
  apply (wp_pure _).mpr
  apply wp_bind
  apply appends.mono _ fun _ held => held
  rintro ⟨appended, buf⟩ _ kept
  cases appended with
  | error errno =>
    apply (wp_pure _).mpr
    have same : buf = filter.logBuf := kept nofun
    rw [same]
  | ok done => exact (wp_pure _).mpr ⟨rfl, rfl, buf, rfl⟩

theorem wp_addStaged_buffered (buffered : Buffered filter pid) (digest : Digest) (undo : Bool) :
    wp (addStaged filter digest .periodic undo) (fun result _ => Buffered result.2 pid) (fun _ => True) world := by
  apply wp_bind
  apply (wp_stageDigestForAdd_periodic digest).mono _ fun _ held => held
  rintro ⟨staged, later⟩ _ outcome
  cases staged with
  | error errno =>
    obtain rfl : later = filter := outcome
    apply wp_bind
    apply (wp_undoMark_buffered buffered undo).mono _ fun _ held => held
    intro final _ held
    exact (wp_pure _).mpr held
  | ok stage =>
    obtain ⟨length, dirty, buf, rfl⟩ := outcome
    apply wp_bind
    apply (wp_trivial _).mono _ fun _ held => held
    intro updated _ _
    cases updated with
    | ok done => exact wp_bind ((wp_pure _).mpr ((wp_pure _).mpr (buffered.remarked buf)))
    | error failure =>
      -- a buffer that was not empty before was marked, and the mark comes back
      have rolled : Buffered { filter with
          logBuf := if stage.overflowFlush then [] else buf.take stage.prevBufLen
          logDirty := stage.prevDirty } pid := by
        constructor
        · intro full
          rw [dirty]
          apply buffered.marked
          intro empty
          rw [length, empty] at full
          simp at full
        · exact buffered.written
      apply wp_bind
      apply (wp_pure _).mpr
      apply wp_bind
      apply (wp_undoMark_buffered rolled undo).mono _ fun _ held => held
      intro final _ held
      exact (wp_pure _).mpr held

theorem wp_addItems_buffered (marked : Bool) (digests : List Digest) :
    ∀ anyAdded (filter : Filter) (world : World), Buffered filter pid →
      wp (addItems .periodic marked digests anyAdded filter) (fun result _ => Buffered result.2 pid)
        (fun _ => True) world := by
  induction digests with
  | nil => exact fun _ _ _ buffered => (wp_pure _).mpr buffered
  | cons digest rest ih =>
    intro anyAdded filter world buffered
    apply wp_bind
    apply (wp_addStaged_buffered buffered digest _).mono _ fun _ held => held
    rintro ⟨added, later⟩ after held
    cases added with
    | error reply => exact (wp_pure _).mpr held
    | ok done => exact ih true later after held

theorem wp_addDigest_buffered (seated : Seated roots filter) (buffered : Buffered filter world.pid)
    (digest : Digest) :
    wp (addDigest filter digest .periodic) (fun result _ => Buffered result.2 world.pid) (fun _ => True) world := by
  apply wp_bind
  apply (wp_prepareAdd_buffered seated buffered).mono _ fun _ held => held
  rintro ⟨prepared, middle⟩ _ held
  cases prepared with
  | error reply => exact (wp_pure _).mpr held
  | ok marked =>
    apply wp_bind
    apply (wp_addStaged_buffered held digest marked).mono _ fun _ held => held
    rintro ⟨added, later⟩ _ last
    cases added with
    | error reply => exact (wp_pure _).mpr last
    | ok done => exact (wp_pure _).mpr ⟨last.marked, last.written⟩

theorem wp_addBatch_buffered (seated : Seated roots filter) (buffered : Buffered filter world.pid)
    (digests : List Digest) :
    wp (addBatch filter digests .periodic) (fun result _ => Buffered result.2 world.pid) (fun _ => True) world := by
  apply wp_bind
  apply (wp_prepareAdd_buffered seated buffered).mono _ fun _ held => held
  rintro ⟨prepared, middle⟩ after held
  cases prepared with
  | error reply => exact (wp_pure _).mpr held
  | ok marked =>
    apply wp_bind
    apply (wp_addItems_buffered marked digests false middle after held).mono _ fun _ held => held
    rintro ⟨added, later⟩ _ last
    cases added with
    | error reply => exact (wp_pure _).mpr last
    | ok done => exact (wp_pure _).mpr ⟨last.marked, last.written⟩

theorem wp_syncFilterLog_buffered (buffered : Buffered filter pid) (now : Nat) (force : Bool) :
    wp (syncFilterLog filter now force) (fun later _ => Buffered later pid) (fun _ => True) world := by
  have flushes : wp (logBufferFlush filter.logFd filter.logBuf true)
      (fun result _ => result = (.ok (), []) ∨ result.1 ≠ .ok () ∧ (result.2 = filter.logBuf ∨ result.2 = []))
      (fun _ => True) world := by
    unfold logBufferFlush
    split
    · exact (wp_pure _).mpr (Or.inr ⟨nofun, Or.inl rfl⟩)
    · apply wp_bind
      apply (wp_trivial _).mono _ fun _ held => held
      intro written _ _
      cases written with
      | error errno => exact (wp_pure _).mpr (Or.inr ⟨nofun, Or.inl rfl⟩)
      | ok done =>
        apply wp_bind
        apply (wp_trivial _).mono _ fun _ held => held
        intro synced _ _
        apply (wp_pure _).mpr
        cases synced with
        | error errno => exact Or.inr ⟨nofun, Or.inr rfl⟩
        | ok done => exact Or.inl rfl
  unfold syncFilterLog
  split
  · exact (wp_pure _).mpr buffered
  · split
    · exact (wp_pure _).mpr buffered
    · rename_i dirty _
      have marked : filter.logDirty = true := by simpa using dirty
      apply wp_bind
      apply flushes.mono _ fun _ held => held
      rintro ⟨flushed, buf⟩ after outcome
      cases flushed with
      | error errno => exact (wp_pure _).mpr ⟨fun _ => marked, buffered.written⟩
      | ok done =>
        obtain rfl : buf = [] := by simpa using outcome
        have emptied := buffered.emptied filter.logFd false now
        simp only
        split
        · apply wp_bind
          apply (wp_updateFilterMetaState_fits true true).mono _ fun _ held => held
          rintro ⟨updated, later⟩ _ outcome
          apply (wp_pure _).mpr
          rcases outcome with rfl | ⟨rfl, _⟩
          · exact emptied
          · exact emptied.flagged true
        · exact (wp_pure _).mpr emptied

end Steps

/-- In `periodic` sessions every filter stays buffered. -/
def bufferUpkeep (roots : Config) : Upkeep roots where
  disk _ _ _ := True
  live mode filter _ world := mode = .periodic → Buffered filter world.pid
  ready _ _ := True
  creatable _ := True
  disk_apart _ _ := trivial
  live_apart apart live periodic := apart.pid ▸ live periodic
  ready_apart _ _ := trivial
  started _ _ := trivial
  crash _ _ := trivial
  counted _ _ live periodic := ⟨(live periodic).marked, (live periodic).written⟩
  absent _ _ := trivial
  unpinned _ _ := trivial
  live_unpinned _ live := live
  live_pinned _ _ live := live
  appended _ _ _ := trivial
  synced _ _ := trivial
  rebooted _ _ _ := trivial
  add {mode filter history world} digest settled live _ := by
    cases mode with
    | always => exact (wp_trivial _).mono (fun _ _ _ => nofun) fun _ held => held
    | periodic =>
      have works := wp_addDigest_buffered settled.seated (live rfl) digest
      have frame : StaysWithin filter.name (addDigest filter digest .periodic) fun result =>
          Follows roots filter result.2 :=
        keeps_addDigestTo settled.seated (fun world => .addDigest world _ digest) _
      apply (wp_within filter.name frame works).mono _ fun _ _ => trivial
      rintro result after ⟨kept, _, within⟩ _
      rw [within.pid]
      exact kept
  batch {mode filter history world} digests settled live _ := by
    cases mode with
    | always => exact (wp_trivial _).mono (fun _ _ _ => nofun) fun _ held => held
    | periodic =>
      have works := wp_addBatch_buffered settled.seated (live rfl) digests
      have frame : StaysWithin filter.name (addBatch filter digests .periodic) fun result =>
          Follows roots filter result.2 :=
        keeps_addBatch settled.seated (fun digest _ world => .addDigest world _ digest) _
      apply (wp_within filter.name frame works).mono _ fun _ _ => trivial
      rintro result after ⟨kept, _, within⟩ _
      rw [within.pid]
      exact kept
  sync {mode filter history world} now force settled live _ := by
    cases mode with
    | always => exact (wp_trivial _).mono (fun _ _ _ => nofun) fun _ held => held
    | periodic =>
      have works := @wp_syncFilterLog_buffered filter world.pid world (live rfl) now force
      apply (wp_within filter.name (keeps_syncFilterLog settled.seated now force) works).mono _ fun _ _ => trivial
      rintro later after ⟨kept, _, within⟩ _
      rw [within.pid]
      exact kept
  create _ {metadata map history world} _ created _ _ := by
    apply (wp_trivial _).mono _ fun _ held => held
    intro result after _
    refine ⟨trivial, fun _ _ => ⟨fun full => absurd rfl full, fun data => ?_⟩⟩
    rw [Filter.fresh, created.hasData] at data
    cases data
  unlogged _ _ := trivial
  load mode {name history world stored record} _ _ _ _ _ _ _ := by
    apply (wp_trivial _).mono _ fun _ held => held
    intro opened after _
    refine ⟨trivial, ?_⟩
    cases opened with
    | stale => trivial
    | failed failure => trivial
    | map loaded map unpinOnError =>
      intro _
      have buffered : Buffered (loadedFilter loaded map) after.pid := by
        constructor
        · exact fun full => absurd rfl full
        · intro data complete dirty
          simp [loadedFilter, Filter.fresh] at data complete dirty
          rw [complete data] at dirty
          cases dirty
      unfold openLoadedLog
      split
      · apply (wp_openFilterLog_buffered buffered false).mono _ fun _ held => held
        rintro result last ⟨held, same⟩
        exact ⟨trivial, fun _ _ => same.symm ▸ held⟩
      · exact (wp_pure _).mpr ⟨trivial, fun _ _ => buffered⟩

section Sync

variable {roots : Config} {mode : LogSyncMode} {added : Bytes → List Digest} {world : World} {daemon : Daemon}

/-- A filter before and after a forced sync in which every call succeeds -/
structure SyncedAs (now pid : Nat) (filter later : Filter) : Prop where
  data : filter.metadata.hasData = true → later = filter.syncedAt now pid
  fresh : filter.metadata.hasData = false → later.metadata.hasData = false

theorem completes_syncFilters (now : Nat) (rest : List Filter) :
    ∀ (front : List Filter) (world : World), Tended (historyUpkeep roots none) mode (front ++ rest) added world →
      Completes (syncFilters now true rest)
        (fun later after => List.Forall₂ (SyncedAs now world.pid) rest later ∧
          Tended (historyUpkeep roots none) mode (front ++ later) added after) world := by
  induction rest with
  | nil => exact fun front world tended => completes_pure _ ⟨.nil, tended⟩
  | cons filter rest ih =>
    intro front world tended
    have serves : Serves roots mode filter (world.view roots filter.name) :=
      (tended.live filter (by simp)).serves
    have turn : Completes (syncFilterLog filter now true)
        (fun later _ => SyncedAs now world.pid filter later) world := by
      cases data : filter.metadata.hasData with
      | false =>
        apply (completes_syncFilterLog_closed data (serves.closed data) now).mono
        intro later _ still
        exact ⟨fun has => (by rw [data] at has; cases has), fun _ => still⟩
      | true =>
        obtain ⟨log, present⟩ := serves.logged data
        apply (completes_syncFilterLog data (serves.opened data) present now).mono
        intro later _ same
        exact ⟨fun _ => same, fun fresh => (by rw [data] at fresh; cases fresh)⟩
    apply completes_bind
    apply (turn.covered (tended.syncTurn (fun _ _ aimed => nomatch aimed) now true)).mono
    rintro later after ⟨synced, replaced, within⟩
    apply completes_bind
    apply (ih (front ++ [later]) after replaced).mono
    rintro more last ⟨others, held⟩
    apply completes_pure
    rw [within.pid] at others
    exact ⟨.cons synced others, by simpa using held⟩

/-- The buffer is written out and the flag is set, in memory and on disk. -/
structure Refreshed (filter : Filter) (world : World) : Prop where
  buffer : filter.logBuf = []
  memory : filter.metadata.logClean = true
  disk : ∃ record, world.fileAt filter.metadata.metaPath = some (some record) ∧ record.logClean = true

/-- Every forced sync in which all calls succeed refreshes every filter that has data
and a complete log, and so does a shutdown. -/
structure SyncRefreshes (daemon : Daemon) (world : World) : Prop where
  sync : ∀ now, Completes (syncDirtyLogs daemon.set now true)
    (fun set after => ∀ filter ∈ set.items, filter.metadata.hasData = true →
      filter.logHistoryIncomplete = false → Refreshed filter after) world
  shutdown : ∀ now, Completes (shutdown daemon now)
    (fun _ after => ∀ filter ∈ daemon.set.items, filter.metadata.hasData = true →
      filter.logHistoryIncomplete = false →
        ∃ record, after.fileAt filter.metadata.metaPath = some (some record) ∧ record.logClean = true) world

/-- The filter does not have its flag off without being marked. -/
def CleanOrMarked (filter : Filter) : Prop :=
  filter.metadata.hasData = true → filter.logHistoryIncomplete = false → filter.metadata.logClean = false →
    filter.logDirty = true

theorem completes_syncDirtyLogs (serving : Serving (historyUpkeep roots none) daemon added world) (now : Nat) :
    Completes (syncDirtyLogs daemon.set now true)
      (fun set after => List.Forall₂ (SyncedAs now world.pid) daemon.set.items set.items ∧
        Tended (historyUpkeep roots none) daemon.config.logSyncMode set.items added after) world := by
  apply completes_bind
  apply (completes_syncFilters now daemon.set.items [] world serving.tended).mono
  intro items after held
  exact completes_pure _ held

theorem isSome_logAt_changeLog (world : World) (path other : Bytes) (change : LogFile → LogFile) :
    ((world.changeLog path change).logAt other).isSome = (world.logAt other).isSome := by
  unfold World.changeLog
  cases present : world.logAt path with
  | none => rfl
  | some log =>
    by_cases same : resolve other = resolve path
    · have there : world.logAt other = some log := by rw [World.logAt, same]; exact present
      rw [there, World.logAt, World.setLog_logs, same, AList.lookup_insert]
      rfl
    · simp [World.logAt, AList.lookup_insert_ne same]

/-- Freeing the set changes no metadata file. -/
theorem completes_freeFilters (items : List Filter) :
    ∀ world : World, (∀ filter ∈ items, ∀ path, filter.logFd = some path → (world.logAt path).isSome = true) →
      Completes (freeFilters items) (fun _ after => after.files = world.files) world := by
  induction items with
  | nil => exact fun world _ => completes_pure _ rfl
  | cons filter rest ih =>
    intro world present
    have flushes : Completes (logBufferFlush filter.logFd filter.logBuf true)
        (fun _ after => after.files = world.files ∧
          ∀ path, (world.logAt path).isSome = true → (after.logAt path).isSome = true) world := by
      cases fd : filter.logFd with
      | none => exact completes_pure _ ⟨rfl, fun _ => id⟩
      | some path =>
        obtain ⟨log, there⟩ := Option.isSome_iff_exists.mp (present filter List.mem_cons_self path fd)
        have logs : wp (logBufferFlush (some path) filter.logBuf true)
            (fun _ after => ∀ other, (world.logAt other).isSome = true → (after.logAt other).isSome = true)
            (fun after => ∀ other, (world.logAt other).isSome = true → (after.logAt other).isSome = true) world := by
          apply @wp_logBufferFlush world path _ (some path) (Or.inr rfl) (fun _ => id)
          · exact fun before chunk held other known => by
              rw [isSome_logAt_changeLog]
              exact held other known
          · exact fun before held other known => by
              rw [isSome_logAt_changeLog]
              exact held other known
        apply ((completes_logBufferFlush there filter.logBuf true).covered logs).mono
        rintro result after ⟨⟨_, now⟩, kept⟩
        exact ⟨now.files, kept⟩
    apply completes_bind
    apply flushes.mono
    rintro result after ⟨files, kept⟩
    have still : ∀ other ∈ rest, ∀ path, other.logFd = some path → (after.logAt path).isSome = true :=
      fun other inside path fd => kept path (present other (List.mem_cons_of_mem _ inside) path fd)
    apply (ih after still).mono
    intro done last same
    exact same.trans files

theorem Filter.syncedAt_metaPath (filter : Filter) (now pid : Nat) :
    (filter.syncedAt now pid).metadata.metaPath = filter.metadata.metaPath := by
  unfold Filter.syncedAt
  split
  · simp only
    split
    · rfl
    · rfl
  · rfl

theorem Filter.syncedAt_hasData {filter : Filter} (data : filter.metadata.hasData = true) (now pid : Nat) :
    (filter.syncedAt now pid).metadata.hasData = true := by
  unfold Filter.syncedAt
  split
  · simp only
    split
    · rfl
    · exact data
  · exact data

theorem Filter.syncedAt_incomplete (filter : Filter) (now pid : Nat) :
    (filter.syncedAt now pid).logHistoryIncomplete = filter.logHistoryIncomplete := by
  unfold Filter.syncedAt
  split
  · rfl
  · rfl

/-- A filter that is clean or marked comes out with its flag set. -/
theorem SyncedAs.refreshed {filter later : Filter} {now pid : Nat} (synced : SyncedAs now pid filter later)
    (proper : Proper roots filter.name filter.metadata.toMetaRecord) (buffered : Buffered filter pid)
    (marked : CleanOrMarked filter) (data : later.metadata.hasData = true)
    (complete : later.logHistoryIncomplete = false) :
    later.logBuf = [] ∧ later.metadata.logClean = true := by
  have has : filter.metadata.hasData = true := by
    cases fresh : filter.metadata.hasData with
    | true => rfl
    | false =>
      rw [synced.fresh fresh] at data
      cases data
  obtain rfl := synced.data has
  rw [Filter.syncedAt_incomplete] at complete
  unfold Filter.syncedAt
  by_cases dirty : filter.logDirty = true
  · rw [if_pos dirty]
    refine ⟨rfl, ?_⟩
    cases clean : filter.metadata.logClean with
    | true => simp [clean]
    | false =>
      have room : Writable (filter.metadata.withState true true) pid := by
        constructor
        · rw [length_metaBody_withState]
          exact proper.body
        · exact buffered.written has complete clean
      simp only [complete, Bool.not_false, Bool.and_self, room, decide_true, ↓reduceIte]
      rfl
  · rw [if_neg dirty]
    constructor
    · by_contra full
      exact dirty (buffered.marked full)
    · by_contra unset
      exact dirty (marked has complete (by simpa using unset))

theorem Tended.logs {items : List Filter} (tended : Tended (historyUpkeep roots none) mode items added world) :
    ∀ filter ∈ items, ∀ path, filter.logFd = some path → (world.logAt path).isSome = true := by
  intro filter member path fd
  have serves : Serves roots mode filter (world.view roots filter.name) := (tended.live filter member).serves
  cases data : filter.metadata.hasData with
  | false =>
    rw [serves.closed data] at fd
    cases fd
  | true =>
    rw [serves.opened data] at fd
    obtain ⟨log, present⟩ := serves.logged data
    obtain rfl := Option.some.inj fd
    exact Option.isSome_iff_exists.mpr ⟨log, present⟩

theorem Tended.file {items : List Filter} (tended : Tended (historyUpkeep roots none) mode items added world)
    {filter : Filter} (member : filter ∈ items) :
    world.fileAt filter.metadata.metaPath = some (some filter.metadata.toMetaRecord) := by
  have serves : Serves roots mode filter (world.view roots filter.name) := (tended.live filter member).serves
  rw [serves.placed.file]
  exact serves.file

theorem syncRefreshes_of_marked (serving : Serving (historyUpkeep roots none) daemon added world)
    (buffered : ∀ filter ∈ daemon.set.items, Buffered filter world.pid)
    (marked : ∀ filter ∈ daemon.set.items, CleanOrMarked filter) : SyncRefreshes daemon world := by
  have refreshes : ∀ now, ∀ filter ∈ daemon.set.items, ∀ later, SyncedAs now world.pid filter later →
      later.metadata.hasData = true → later.logHistoryIncomplete = false →
        later.logBuf = [] ∧ later.metadata.logClean = true := by
    intro now filter member later synced
    have serves : Serves roots _ filter (world.view roots filter.name) := (serving.tended.live filter member).serves
    exact synced.refreshed serves.proper (buffered filter member) (marked filter member)
  constructor
  · intro now
    apply (completes_syncDirtyLogs serving now).mono
    rintro set after ⟨synced, tended⟩ later member data complete
    obtain ⟨filter, known, was⟩ := exists_of_forall₂_right synced member
    obtain ⟨buffer, memory⟩ := refreshes now filter known later was data complete
    exact ⟨buffer, memory, _, tended.file member, memory⟩
  · intro now
    apply completes_bind
    apply (completes_syncDirtyLogs serving now).mono
    rintro set after ⟨synced, tended⟩
    apply (completes_freeFilters set.items after tended.logs).mono
    intro done last same filter member data complete
    obtain ⟨later, known, was⟩ := exists_of_forall₂_left synced member
    have found := tended.file known
    obtain rfl := was.data data
    rw [← filter.syncedAt_metaPath now world.pid, World.fileAt, same]
    refine ⟨_, found, ?_⟩
    exact (refreshes now filter member _ was (filter.syncedAt_hasData data now world.pid)
      ((filter.syncedAt_incomplete now world.pid).trans complete)).2

theorem marked_of_syncRefreshes (serving : Serving (historyUpkeep roots none) daemon added world)
    (refreshes : SyncRefreshes daemon world) : ∀ filter ∈ daemon.set.items, CleanOrMarked filter := by
  intro filter member data complete unset
  by_contra clear
  obtain ⟨used, set, after, ⟨held, synced, _⟩, _⟩ :=
    ((refreshes.sync 0).and (completes_syncDirtyLogs serving 0)).run (fun _ => .ok) fun _ => trivial
  obtain ⟨later, known, was⟩ := exists_of_forall₂_left synced member
  have same : later = filter := by
    rw [was.data data, Filter.syncedAt, if_neg clear]
  subst same
  rw [(held later known data complete).memory] at unset
  cases unset

end Sync

section Runs

variable {roots : Config} {actions : List Action} {state : State}

theorem permitted_of_rooted [Libm] {upkeep : Upkeep roots} (ready : ∀ name world, upkeep.ready name world)
    (creatable : ∀ name, upkeep.creatable name) (rooted : ∀ action ∈ actions, action.KeepsRoots roots) :
    Permitted upkeep state actions := by
  induction actions generalizing state with
  | nil => trivial
  | cons action rest ih =>
    refine ⟨?_, ih fun other member => rooted other (List.mem_cons_of_mem _ member)⟩
    have own := rooted action List.mem_cons_self
    cases action with
    | request request answers =>
      cases request with
      | create request => exact creatable _
      | add other payload => exact ready _ _
      | check other payload => trivial
      | madd other payloads => exact ready _ _
      | mcheck other payloads => trivial
      | drop other => trivial
    | sync now force answers => exact fun _ _ _ _ _ => ready _ _
    | shutdown now answers => exact fun _ _ _ _ _ => ready _ _
    | restart env config pid answers => exact own
    | kill => trivial
    | reboot surviving => trivial

theorem serving_of_run [Libm] {daemon : Daemon} (rooted : ∀ action ∈ actions, action.KeepsRoots roots)
    (running : (State.initial.run actions).daemon = some daemon) :
    Serving (historyUpkeep roots none) daemon (State.initial.run actions).added (State.initial.run actions).world := by
  have tidy := (tidy_initial (historyUpkeep roots none)).run
    (permitted_of_rooted (fun _ _ _ aimed => nomatch aimed) (fun _ => trivial) rooted)
  unfold Tidy at tidy
  rwa [running] at tidy

theorem buffered_of_run [Libm] {daemon : Daemon} (rooted : ∀ action ∈ actions, action.KeepsRoots roots)
    (running : (State.initial.run actions).daemon = some daemon) (periodic : daemon.config.logSyncMode = .periodic) :
    ∀ filter ∈ daemon.set.items, Buffered filter (State.initial.run actions).world.pid := by
  have tidy := (tidy_initial (bufferUpkeep roots)).run
    (permitted_of_rooted (fun _ _ => trivial) (fun _ => trivial) rooted)
  unfold Tidy at tidy
  rw [running] at tidy
  exact fun filter member => tidy.tended.live filter member periodic

/-- In every state that a run from empty roots reaches, with any calls of the run
failing, a forced sync in which every call succeeds restores the clean flag if and
only if no filter has lost its mark while the flag was off. -/
theorem forcedSync_restores_cleanFlag_iff [Libm] {daemon : Daemon}
    (rooted : ∀ action ∈ actions, action.KeepsRoots roots)
    (running : (State.initial.run actions).daemon = some daemon)
    (periodic : daemon.config.logSyncMode = .periodic) :
    SyncRefreshes daemon (State.initial.run actions).world ↔
      ∀ filter ∈ daemon.set.items, CleanOrMarked filter := by
  constructor
  · exact marked_of_syncRefreshes (serving_of_run rooted running)
  · exact syncRefreshes_of_marked (serving_of_run rooted running) (buffered_of_run rooted running periodic)

/-- A digest is added in `periodic` mode and waits in the buffer. -/
def bufferedRun : List Action :=
  [.restart .plain (demoRoots.withMode .periodic) 7 plenty, .request demoCreate plenty,
    .request (.add demoName (bytes "a")) plenty]

theorem forcedSync_restores_cleanFlag_buffered :
    ∃ daemon, (@State.run exactLibm .initial bufferedRun).daemon = some daemon ∧
      (∃ filter ∈ daemon.set.items, filter.metadata.hasData = true ∧ filter.metadata.logClean = false) ∧
      SyncRefreshes daemon (@State.run exactLibm .initial bufferedRun).world := by
  have served : (@State.run exactLibm .initial bufferedRun).daemon.map (fun daemon =>
      (daemon.config.logSyncMode, daemon.set.items.map fun filter =>
        (filter.metadata.hasData, filter.metadata.logClean, filter.logDirty))) =
      some (.periodic, [(true, false, true)]) := by decide +kernel
  obtain ⟨daemon, running, shape⟩ := Option.map_eq_some_iff.mp served
  obtain ⟨periodic, items⟩ := Prod.mk.inj shape
  obtain ⟨filter, single, flags⟩ := List.map_eq_singleton_iff.mp items
  obtain ⟨data, flags⟩ := Prod.mk.inj flags
  obtain ⟨unset, dirty⟩ := Prod.mk.inj flags
  have rooted : ∀ action ∈ bufferedRun, action.KeepsRoots demoRoots := by
    intro action member
    simp only [bufferedRun, List.mem_cons, List.not_mem_nil, or_false] at member
    rcases member with rfl | rfl | rfl
    · rfl
    · trivial
    · trivial
  refine ⟨daemon, running, ⟨filter, by rw [single]; exact List.mem_singleton_self _, data, unset⟩, ?_⟩
  apply (@forcedSync_restores_cleanFlag_iff demoRoots bufferedRun exactLibm daemon rooted running periodic).mpr
  intro other member _ _ _
  rw [single, List.mem_singleton] at member
  rw [member]
  exact dirty

/-- The map update of an ADD fails, and so does the metadata write that should set
the clean flag again. -/
def unmarkedRun : List Action :=
  [.restart .plain (demoRoots.withMode .periodic) 7 plenty, .request demoCreate plenty,
    .request (.add demoName (bytes "a")) (List.replicate 15 .ok ++ [.fail .enomem, .fail .enospc])]

theorem unmarkedRun_keeps_flag_off :
    (∀ action ∈ unmarkedRun, action.KeepsRoots demoRoots) ∧
      ∃ daemon, (@State.run exactLibm .initial unmarkedRun).daemon = some daemon ∧
        daemon.config.logSyncMode = .periodic ∧
        ¬ SyncRefreshes daemon (@State.run exactLibm .initial unmarkedRun).world := by
  have rooted : ∀ action ∈ unmarkedRun, action.KeepsRoots demoRoots := by
    intro action member
    simp only [unmarkedRun, List.mem_cons, List.not_mem_nil, or_false] at member
    rcases member with rfl | rfl | rfl
    · rfl
    · trivial
    · trivial
  have served : (@State.run exactLibm .initial unmarkedRun).daemon.map (fun daemon =>
      (daemon.config.logSyncMode, daemon.set.items.map fun filter =>
        (filter.metadata.hasData, filter.logHistoryIncomplete, filter.metadata.logClean, filter.logDirty))) =
      some (.periodic, [(true, false, false, false)]) := by decide +kernel
  obtain ⟨daemon, running, shape⟩ := Option.map_eq_some_iff.mp served
  obtain ⟨periodic, items⟩ := Prod.mk.inj shape
  obtain ⟨filter, single, flags⟩ := List.map_eq_singleton_iff.mp items
  simp only [Prod.mk.injEq] at flags
  obtain ⟨data, complete, unset, clear⟩ := flags
  refine ⟨rooted, daemon, running, periodic, fun refreshes => ?_⟩
  have marked := marked_of_syncRefreshes (@serving_of_run demoRoots unmarkedRun exactLibm daemon rooted running)
    refreshes filter (by rw [single]; exact List.mem_singleton_self _) data complete unset
  rw [clear] at marked
  cases marked

end Runs

end Bloomd
