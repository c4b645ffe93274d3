import Bloomd.LoadTurn

/-! A filter that was loaded with `log_clean=0` keeps that flag, in memory and on
disk, until it is dropped: its log lacks digests that its map holds, and no later
write of the log can bring them back. -/

namespace Bloomd

open CrashLogic Prog

/-- A condition that does not depend on logs or on the contents of maps -/
structure LogBlind (good : World → Prop) : Prop where
  changed : ∀ world path change, good world → good (world.changeLog path change)
  opened : ∀ world path log, good world → good (world.setLog path log)
  added : ∀ world map digest, good world → good (world.addDigest map digest)

/-- The metadata and the loader's verdict on the log are as they were. -/
structure SameHistory (filter later : Filter) : Prop where
  metadata : later.metadata = filter.metadata
  incomplete : later.logHistoryIncomplete = filter.logHistoryIncomplete

theorem SameHistory.trans (first : SameHistory filter middle) (second : SameHistory middle later) :
    SameHistory filter later :=
  ⟨second.metadata.trans first.metadata, second.incomplete.trans first.incomplete⟩

section Dirty

variable {good : World → Prop} (blind : LogBlind good) {world : World} (held : good world)
  {filter : Filter}
include blind held

theorem wp_openFilterLog_blind (truncate : Bool) :
    wp (openFilterLog filter truncate)
      (fun result after => SameHistory filter result.2 ∧ good after) good world := by
  have opens : wp (logOpen filter.metadata.logPath truncate) (fun _ after => good after) good
      world := by
    have choose : ∀ chosen, wp (sysOpenLog filter.metadata.logPath chosen)
        (fun _ after => good after) good world := by
      intro chosen
      refine wp_attempt held (fun _ _ => held) ?_
      split
      · exact held
      · exact blind.opened world _ _ held
    cases truncate with
    | true => exact choose true
    | false => exact choose false
  refine wp_bind (opens.mono ?_ fun _ safe => safe)
  intro result after held
  cases result with
  | error errno => exact (wp_pure _).mpr ⟨⟨rfl, rfl⟩, held⟩
  | ok fd =>
    refine wp_bind ((wp_call _).mpr ⟨held, fun answer => ?_⟩)
    exact (wp_pure _).mpr ⟨⟨rfl, rfl⟩, held⟩

theorem wp_writeAll_blind (path buf : Bytes) :
    wp (writeAll path buf) (fun _ after => good after) good world :=
  wp_writeAll held (fun before _ safe => blind.changed before path _ safe) buf

theorem wp_logBufferAppend_blind (fd : Option Bytes) (buf : Bytes) (digest : Digest) :
    wp (logBufferAppend fd buf digest) (fun _ after => good after) good world := by
  unfold logBufferAppend
  split
  · exact (wp_pure _).mpr held
  · split
    · exact (wp_pure _).mpr held
    · split
      · refine wp_bind ((wp_writeAll_blind blind held _ buf).mono ?_ fun _ safe => safe)
        intro result after held
        cases result with
        | error errno => exact (wp_pure _).mpr held
        | ok done => exact (wp_pure _).mpr held
      · exact (wp_pure _).mpr held

theorem wp_logBufferFlush_blind (fd : Option Bytes) (buf : Bytes) (sync : Bool) :
    wp (logBufferFlush fd buf sync) (fun _ after => good after) good world := by
  cases fd with
  | none => exact (wp_pure _).mpr held
  | some path =>
    exact wp_logBufferFlush _ (Or.inr rfl) held (fun before _ safe => blind.changed before path _ safe)
      (fun before safe => blind.changed before path _ safe) buf sync

theorem wp_stageDigestForAdd_blind (digest : Digest) (mode : LogSyncMode) :
    wp (stageDigestForAdd filter digest mode)
      (fun result after => SameHistory filter result.2 ∧ good after) good world := by
  have size : wp (stageFileSize filter mode) (fun _ after => good after) good world := by
    unfold stageFileSize
    split
    · exact (wp_pure _).mpr held
    · split
      · exact (wp_pure _).mpr held
      · exact wp_attempt held (fun _ _ => held) held
  refine wp_bind (size.mono ?_ fun _ safe => safe)
  intro measured after held
  cases measured with
  | error errno => exact (wp_pure _).mpr ⟨⟨rfl, rfl⟩, held⟩
  | ok prevFileSize =>
    refine wp_bind ((wp_logBufferAppend_blind blind held _ _ digest).mono ?_ fun _ safe => safe)
    rintro ⟨appended, buf⟩ middle held
    cases appended with
    | error errno => exact (wp_pure _).mpr ⟨⟨rfl, rfl⟩, held⟩
    | ok done =>
      cases mode with
      | periodic => exact (wp_pure _).mpr ⟨⟨rfl, rfl⟩, held⟩
      | always =>
        refine wp_bind ((wp_logBufferFlush_blind blind held _ _ true).mono ?_ fun _ safe => safe)
        rintro ⟨flushed, buf⟩ last held
        cases flushed with
        | error errno => exact (wp_pure _).mpr ⟨⟨rfl, rfl⟩, held⟩
        | ok done => exact (wp_pure _).mpr ⟨⟨rfl, rfl⟩, held⟩

theorem wp_rollbackStagedDigest_blind (stage : LogStage) (mode : LogSyncMode) :
    wp (rollbackStagedDigest filter stage mode)
      (fun later after => SameHistory filter later ∧ good after) good world := by
  cases mode with
  | periodic => exact (wp_pure _).mpr ⟨⟨rfl, rfl⟩, held⟩
  | always =>
    unfold rollbackStagedDigest
    simp only
    split
    · have cuts : wp (logTruncate filter.logFd stage.prevFileSize true) (fun _ after => good after)
          good world := by
        unfold logTruncate
        split
        · exact (wp_pure _).mpr held
        · rename_i path _
          refine wp_bind (wp_attempt held (fun _ _ => (wp_pure _).mpr held) ?_)
          have cut := blind.changed world path (·.truncate stage.prevFileSize) held
          exact wp_attempt cut (fun _ _ => cut) (blind.changed _ path _ cut)
      exact wp_bind (cuts.mono (fun _ _ held => (wp_pure _).mpr ⟨⟨rfl, rfl⟩, held⟩) fun _ safe => safe)
    · exact (wp_pure _).mpr ⟨⟨rfl, rfl⟩, held⟩

theorem wp_addStaged_blind (digest : Digest) (mode : LogSyncMode) :
    wp (addStaged filter digest mode false)
      (fun result after => SameHistory filter result.2 ∧ good after) good world := by
  refine wp_bind ((wp_stageDigestForAdd_blind blind held digest mode).mono ?_ fun _ safe => safe)
  rintro ⟨staged, middle⟩ after ⟨same, held⟩
  cases staged with
  | error errno => exact (wp_pure _).mpr ⟨same, held⟩
  | ok stage =>
    have updates : wp (bpfAddDigest middle.mapFd digest) (fun _ last => good last) good after := by
      have update : wp (sysMapUpdate middle.mapFd digest) (fun _ last => good last) good after :=
        wp_attempt held (fun _ _ => held) (blind.added after _ digest held)
      refine wp_bind (update.mono ?_ fun _ safe => safe)
      intro result last held
      cases result with
      | ok done => exact (wp_pure _).mpr held
      | error errno => exact (wp_pure _).mpr held
    refine wp_bind (updates.mono ?_ fun _ safe => safe)
    intro added last held
    cases added with
    | error failure =>
      refine wp_bind ((wp_rollbackStagedDigest_blind blind held stage mode).mono ?_ fun _ safe => safe)
      rintro later final ⟨more, held⟩
      exact (wp_pure _).mpr ⟨same.trans more, held⟩
    | ok done =>
      cases mode with
      | periodic => exact (wp_pure _).mpr ⟨same.trans ⟨rfl, rfl⟩, held⟩
      | always =>
        refine wp_bind (wp_bind ((wp_call _).mpr ⟨held, fun answer => ?_⟩))
        exact (wp_pure _).mpr ((wp_pure _).mpr ⟨same.trans ⟨rfl, rfl⟩, held⟩)

/-- A filter with data and a cleared flag stays as it is through the steps before
the first digest: the flag is not cleared again, so no failure sets it. -/
theorem wp_prepareAdd_blind (durable : filter.metadata.hasData = true)
    (dirty : filter.metadata.logClean = false) (mode : LogSyncMode) :
    wp (prepareAdd filter mode)
      (fun result after => SameHistory filter result.2 ∧ (∀ marked, result.1 = .ok marked → marked = false) ∧
        good after) good world := by
  have ensures : wp (ensureFilterDurable filter)
      (fun result after => SameHistory filter result.2 ∧ good after) good world := by
    unfold ensureFilterDurable
    rw [if_pos durable]
    split
    · exact wp_openFilterLog_blind blind held false
    · exact (wp_pure _).mpr ⟨⟨rfl, rfl⟩, held⟩
  refine wp_bind (ensures.mono ?_ fun _ safe => safe)
  rintro ⟨opened, later⟩ after ⟨same, held⟩
  cases opened with
  | error failure => exact (wp_pure _).mpr ⟨same, fun _ failed => (by cases failed), held⟩
  | ok done =>
    cases mode with
    | always => exact (wp_pure _).mpr ⟨same, fun _ kept => (by cases kept; rfl), held⟩
    | periodic =>
      have still : later.metadata.logClean = false := same.metadata ▸ dirty
      have unmarked : markFilterLogDirty later = pure (.ok false, later) := by
        unfold markFilterLogDirty
        rw [if_pos (by simp [still])]
      simp only [unmarked]
      refine wp_bind ((wp_pure _).mpr ?_)
      exact (wp_pure _).mpr ⟨same, fun _ kept => (by cases kept; rfl), held⟩

omit held in
theorem wp_addItems_blind (mode : LogSyncMode) (digests : List Digest) :
    ∀ (anyAdded : Bool) (filter : Filter) (world : World), good world →
      wp (addItems mode false digests anyAdded filter)
        (fun result after => SameHistory filter result.2 ∧ good after) good world := by
  induction digests with
  | nil => exact fun _ _ _ held => (wp_pure _).mpr ⟨⟨rfl, rfl⟩, held⟩
  | cons digest rest ih =>
    intro anyAdded filter world held
    refine wp_bind ((wp_addStaged_blind blind held digest mode).mono ?_ fun _ safe => safe)
    rintro ⟨added, later⟩ after ⟨same, held⟩
    cases added with
    | error reply => exact (wp_pure _).mpr ⟨same, held⟩
    | ok done =>
      refine (ih true later after held).mono ?_ fun _ safe => safe
      exact fun _ _ more => ⟨same.trans more.1, more.2⟩

theorem wp_addDigest_blind (durable : filter.metadata.hasData = true)
    (dirty : filter.metadata.logClean = false) (digest : Digest) (mode : LogSyncMode) :
    wp (addDigest filter digest mode)
      (fun result after => SameHistory filter result.2 ∧ good after) good world := by
  refine wp_bind ((wp_prepareAdd_blind blind held durable dirty mode).mono ?_ fun _ safe => safe)
  rintro ⟨prepared, middle⟩ after ⟨same, unmarked, held⟩
  cases prepared with
  | error reply => exact (wp_pure _).mpr ⟨same, held⟩
  | ok marked =>
    obtain rfl := unmarked marked rfl
    refine wp_bind ((wp_addStaged_blind blind held digest mode).mono ?_ fun _ safe => safe)
    rintro ⟨added, later⟩ last ⟨more, held⟩
    cases added with
    | error reply => exact (wp_pure _).mpr ⟨same.trans more, held⟩
    | ok done => exact (wp_pure _).mpr ⟨(same.trans more).trans ⟨rfl, rfl⟩, held⟩

theorem wp_addBatch_blind (durable : filter.metadata.hasData = true)
    (dirty : filter.metadata.logClean = false) (digests : List Digest) (mode : LogSyncMode) :
    wp (addBatch filter digests mode)
      (fun result after => SameHistory filter result.2 ∧ good after) good world := by
  refine wp_bind ((wp_prepareAdd_blind blind held durable dirty mode).mono ?_ fun _ safe => safe)
  rintro ⟨prepared, middle⟩ after ⟨same, unmarked, held⟩
  cases prepared with
  | error reply => exact (wp_pure _).mpr ⟨same, held⟩
  | ok marked =>
    obtain rfl := unmarked marked rfl
    refine wp_bind ((wp_addItems_blind blind mode digests false middle after held).mono ?_
      fun _ safe => safe)
    rintro ⟨added, later⟩ last ⟨more, held⟩
    cases added with
    | error reply => exact (wp_pure _).mpr ⟨same.trans more, held⟩
    | ok done => exact (wp_pure _).mpr ⟨(same.trans more).trans ⟨rfl, rfl⟩, held⟩

/-- A sync sets the flag only for a log that is known to be complete. -/
theorem wp_syncFilterLog_blind (incomplete : filter.logHistoryIncomplete = true) (now : Nat)
    (force : Bool) :
    wp (syncFilterLog filter now force)
      (fun later after => SameHistory filter later ∧ good after) good world := by
  unfold syncFilterLog
  split
  · exact (wp_pure _).mpr ⟨⟨rfl, rfl⟩, held⟩
  · split
    · exact (wp_pure _).mpr ⟨⟨rfl, rfl⟩, held⟩
    · refine wp_bind ((wp_logBufferFlush_blind blind held _ _ true).mono ?_ fun _ safe => safe)
      rintro ⟨flushed, buf⟩ after held
      cases flushed with
      | error errno => exact (wp_pure _).mpr ⟨⟨rfl, rfl⟩, held⟩
      | ok done =>
        simp only [incomplete, Bool.not_true, Bool.and_false, Bool.false_eq_true, ↓reduceIte]
        exact (wp_pure _).mpr ⟨⟨rfl, incomplete.symm⟩, held⟩

end Dirty

section Inherited

variable (roots : Config) (target : Bytes)

/-- On disk the flag is 0, unless the file is gone. -/
def DirtyOnDisk (world : World) : Prop :=
  ∀ record, world.fileAt (roots.metaPathOf target) = some (some record) →
    record.hasData = true ∧ record.logClean = false

/-- In memory the flag is 0 and the history is known to be incomplete. -/
structure DirtyInMemory (filter : Filter) : Prop where
  hasData : filter.metadata.hasData = true
  logClean : filter.metadata.logClean = false
  incomplete : filter.logHistoryIncomplete = true

theorem logBlind_dirtyOnDisk : LogBlind (DirtyOnDisk roots target) where
  changed world path change held record := by simpa [World.fileAt] using held record
  opened world path log held record := by simpa [World.fileAt] using held record
  added world map digest held record := by simpa [World.fileAt] using held record

variable {roots target} in
theorem DirtyInMemory.same (dirty : DirtyInMemory filter) (same : SameHistory filter later) :
    DirtyInMemory later :=
  ⟨same.metadata ▸ dirty.hasData, same.metadata ▸ dirty.logClean, same.incomplete.trans dirty.incomplete⟩

/-- What is kept about the filter `target`; nothing is asked of the others. -/
def dirtyDisk (name : Bytes) (world : World) : Prop := name = target → DirtyOnDisk roots target world

def dirtyLive (filter : Filter) (world : World) : Prop :=
  filter.name = target → DirtyInMemory filter ∧ DirtyOnDisk roots target world

variable {roots target}

/-- Work that keeps the history of the target keeps the invariant. -/
private theorem wp_dirty {work : Sys α} {world : World} {filter : Filter} (later : α → Filter)
    (live : dirtyLive roots target filter world)
    (frame : StaysWithin filter.name work fun result => Follows roots filter (later result))
    (works : filter.name = target → DirtyInMemory filter → DirtyOnDisk roots target world →
      wp work (fun result after => SameHistory filter (later result) ∧ DirtyOnDisk roots target after)
        (DirtyOnDisk roots target) world) :
    wp work (fun result after => dirtyLive roots target (later result) after)
      (fun after => dirtyDisk roots target filter.name after) world := by
  by_cases same : filter.name = target
  · obtain ⟨dirty, disk⟩ := live same
    refine (works same dirty disk).mono ?_ fun _ held _ => held
    exact fun _ _ held _ => ⟨dirty.same held.1, held.2⟩
  · refine (frame world).mono ?_ fun _ _ equal => absurd equal same
    exact fun _ _ held equal => absurd (held.1.name.symm.trans equal) same

private theorem wp_openOrRebuild_dirty {world : World} {record : FilterMeta} {config : Config}
    (disk : DirtyOnDisk roots target world) (durable : record.hasData = true)
    (dirty : record.logClean = false) :
    wp (openOrRebuild config record)
      (fun opened after => DirtyOnDisk roots target after ∧ match opened with
        | .map loaded _ _ => loaded = record
        | _ => True)
      (DirtyOnDisk roots target) world := by
  have gets : wp (bpfOpenPinned record.pinPath) (fun _ after => DirtyOnDisk roots target after)
      (DirtyOnDisk roots target) world := by
    refine wp_attempt disk (fun _ _ => disk) ?_
    split
    · exact disk
    · exact disk
  refine wp_bind (gets.mono ?_ fun _ held => held)
  intro result after disk
  cases result with
  | ok map => exact (wp_pure _).mpr ⟨disk, rfl⟩
  | error errno =>
    simp only [durable, dirty, Bool.not_true, Bool.not_false, Bool.false_eq_true, ↓reduceIte]
    split
    · exact (wp_pure _).mpr ⟨disk, trivial⟩
    · exact (wp_pure _).mpr ⟨disk, trivial⟩

/-- The invariant of an inherited incomplete history, for runs that do not create
the name anew. -/
def dirtyUpkeep (roots : Config) (target : Bytes) (valid : nameIsValid target = true) :
    Upkeep roots where
  disk name _ world := dirtyDisk roots target name world
  live _ filter _ world := dirtyLive roots target filter world
  ready _ _ := True
  creatable name := name ≠ target
  disk_apart apart disk same record present := by
    subst same
    refine disk rfl record ?_
    rwa [World.fileAt, ← apart.files _ (leaf_metaPathOf roots valid)]
  live_apart apart live same := by
    subst same
    refine ⟨(live rfl).1, fun record present => (live rfl).2 record ?_⟩
    rwa [World.fileAt, ← apart.files _ (leaf_metaPathOf roots valid)]
  ready_apart _ _ := trivial
  started _ disk := disk
  crash _ live same := (live same).2
  counted _ _ live same := ⟨⟨(live same).1.1, (live same).1.2, (live same).1.3⟩, (live same).2⟩
  absent _ missing same record present := by
    subst same
    rw [missing] at present
    cases present
  unpinned _ disk := disk
  live_unpinned _ live := live
  live_pinned _ _ live := live
  appended chunk _ disk same := (logBlind_dirtyOnDisk roots target).changed _ _ _ (disk same)
  synced _ disk same := (logBlind_dirtyOnDisk roots target).changed _ _ _ (disk same)
  rebooted _ _ disk := disk
  add digest settled live _ := wp_dirty Prod.snd live
    (keeps_addDigestTo settled.seated (fun world => .addDigest world _ digest) _)
    fun _ dirty disk => wp_addDigest_blind (logBlind_dirtyOnDisk roots target) disk dirty.hasData
      dirty.logClean digest _
  batch digests settled live _ := wp_dirty Prod.snd live
    (keeps_addBatch settled.seated (fun digest _ world => .addDigest world _ digest) _)
    fun _ dirty disk => wp_addBatch_blind (logBlind_dirtyOnDisk roots target) disk dirty.hasData
      dirty.logClean digests _
  sync now force settled live _ := wp_dirty id live (keeps_syncFilterLog settled.seated now force)
    fun _ dirty disk => wp_syncFilterLog_blind (logBlind_dirtyOnDisk roots target) disk
      dirty.incomplete now force
  create _ {metadata _ _ _} different _ _ _ :=
    (wp_trivial (metaWriteAtomic metadata)).mono
      (fun _ _ _ => ⟨fun same => absurd same different, fun _ same => absurd same different⟩)
      fun _ _ same => absurd same different
  unlogged _ live same := (live same).2
  load mode {name _ world stored record} named disk present readable same pin _ := by
    by_cases own : name = target
    · have dirty : record.hasData = true ∧ record.logClean = false := by
        rw [readBack_eq readable]
        exact disk own stored (own ▸ present)
      refine (wp_openOrRebuild_dirty (disk own) dirty.1 dirty.2).mono ?_ fun _ held _ => held
      rintro opened after ⟨disk, kept⟩
      refine ⟨fun _ => disk, ?_⟩
      cases opened with
      | stale => trivial
      | failed failure => trivial
      | map loaded map _ =>
        obtain rfl := kept
        intro _
        have data : (loadedFilter { record with
            metaPath := roots.metaPathOf name, logPath := roots.logPathOf name } map).metadata.hasData =
            true := dirty.1
        rw [openLoadedLog, if_pos data]
        refine (wp_openFilterLog_blind (logBlind_dirtyOnDisk roots target) disk false).mono ?_
          fun _ held _ => held
        rintro result last ⟨same, disk⟩
        refine ⟨fun _ => disk, fun _ _ => ⟨?_, disk⟩⟩
        exact DirtyInMemory.same ⟨dirty.1, dirty.2, by simp [loadedFilter, dirty]⟩ same
    · have placed : Placed roots { record with
          metaPath := roots.metaPathOf name, logPath := roots.logPathOf name } :=
        ⟨same.symm ▸ named, by simp [same], by simp [same], pin.trans same.symm⟩
      refine (staysWithin_openOrRebuild (placed.withMode mode) world).mono ?_
        fun _ _ equal => absurd equal own
      rintro opened after ⟨fits, _⟩
      refine ⟨fun equal => absurd equal own, ?_⟩
      cases opened with
      | stale => trivial
      | failed failure => trivial
      | map loaded map _ =>
        intro _
        have seated := seated_loadedFilter fits.1.ofMode map
        have opens : StaysWithin (loadedFilter loaded map).name (openLoadedLog (loadedFilter loaded map))
            fun result => Follows roots (loadedFilter loaded map) result.2 := keeps_openLoadedLog seated
        refine (opens after).mono ?_ fun _ _ equal => absurd equal own
        rintro result last ⟨follows, _⟩
        refine ⟨fun equal => absurd equal own, fun _ equal => absurd ?_ own⟩
        exact same.symm.trans (fits.2.symm.trans (follows.name.symm.trans equal))

/-- A load that finds no pin for such a record stops there and changes nothing. -/
theorem loadEntries_refuses {config : Config} {env : Env} {name : Bytes}
    {stored record : MetaRecord} {world : World} {lookup : Answer} (valid : nameIsValid name = true)
    (fits : (config.metaPathOf name).length < pathMax)
    (logFits : (config.logPathOf name).length < pathMax)
    (present : world.fileAt (config.metaPathOf name) = some (some stored))
    (decoded : stored.readBack = some record)
    (named : record.name = name) (under : pathUnderRoot record.pinPath config.pinRoot = true)
    (pinned : pathHasName record.pinPath name = true) (durable : record.hasData = true)
    (dirty : record.logClean = false) (readable : env.reads (config.metaPathOf name) = .ok)
    (missing : world.pinAt record.pinPath = none) (accepted : lookup.refusal = none)
    (rest : List Bytes) (loading : Loading) (read : Answer) (answers : List Answer) :
    loadEntries env config (metaLeaf name :: rest) loading world (read :: lookup :: answers) =
      .returned (.error ⟨.euclean, "refusing rebuild for " ++ text name ++
        ": replay log may be missing unsynced tail"⟩, loading) world answers := by
  subst named
  have reads : metaReadFile env (config.metaPathOf record.name) world (read :: lookup :: answers) =
      .returned (.ok { record with metaPath := config.metaPathOf record.name, logPath := [] })
        world (lookup :: answers) := by
    simp [metaReadFile, call, readable, present, decoded]
  have looks : bpfOpenPinned record.pinPath world (lookup :: answers) =
      .returned (.error .enoent) world answers := by
    simp [bpfOpenPinned, sysObjGet, attempt, call, accepted, missing]
  have built : buildLogPath config.metaRoot record.name = .ok (config.logPathOf record.name) :=
    if_neg (Nat.not_le.mpr logFits)
  simp only [loadEntries, loadEntry, bind_apply, hasSuffix_metaLeaf]
  rw [joined_metaLeaf, metaEntryName_metaLeaf valid]
  simp only [Bool.not_true, Bool.false_eq_true, ↓reduceIte, Nat.not_le.mpr fits]
  simp only [loadRecord, bind_apply, reads, under, pinned, ne_eq, not_true_eq_false, Bool.not_true,
    Bool.false_eq_true, or_self, ↓reduceIte, built, openOrRebuild, looks, durable, dirty,
    Bool.not_false, pure_apply]

end Inherited

/-- The steps of a run that leave a filter in existence and the roots alone -/
def Retains (roots : Config) (name : Bytes) : Action → Prop
  | .request (.create request) _ => request.name ≠ name
  | .request (.drop dropped) _ => dropped ≠ name
  | .restart _ config _ _ => config = roots.withMode config.logSyncMode
  | _ => True

theorem permitted_of_retains [Libm] {roots : Config} {target : Bytes} {state : State}
    {actions : List Action} (valid : nameIsValid target = true)
    (retains : ∀ action ∈ actions, Retains roots target action) :
    Permitted (dirtyUpkeep roots target valid) state actions := by
  induction actions generalizing state with
  | nil => trivial
  | cons action rest ih =>
    refine ⟨?_, ih fun other member => retains other (List.mem_cons_of_mem _ member)⟩
    have own := retains action List.mem_cons_self
    cases action with
    | request request answers =>
      cases request with
      | create request => exact own
      | add name payload => trivial
      | check name payload => trivial
      | madd name payloads => trivial
      | mcheck name payloads => trivial
      | drop name => trivial
    | sync now force answers => exact fun _ _ _ _ _ => trivial
    | shutdown now answers => exact fun _ _ _ _ _ => trivial
    | restart env config pid answers => exact own
    | kill => trivial
    | reboot surviving => trivial

/-- A load refuses at the turn of such a record, wherever the record stands among
the entries. -/
theorem loadEntries_refuses_after {roots : Config} {mode : LogSyncMode} {env : Env} {name : Bytes}
    {stored record : MetaRecord} {world middle : World} {front rest : List Bytes} {loading later : Loading}
    {answers unused : List Answer} {read lookup : Answer} (valid : nameIsValid name = true)
    (fits : Fits roots name)
    (present : world.fileAt (roots.metaPathOf name) = some (some stored))
    (decoded : stored.readBack = some record)
    (named : record.name = name) (under : pathUnderRoot record.pinPath roots.pinRoot = true)
    (pinned : pathHasName record.pinPath name = true) (durable : record.hasData = true)
    (dirty : record.logClean = false) (readable : env.reads (roots.metaPathOf name) = .ok)
    (missing : world.pinAt record.pinPath = none) (accepted : lookup.refusal = none)
    (elsewhere : metaLeaf name ∉ front)
    (loaded : loadEntries env (roots.withMode mode) front loading world answers =
      .returned (.ok (), later) middle (read :: lookup :: unused)) :
    loadEntries env (roots.withMode mode) (front ++ metaLeaf name :: rest) loading world answers =
      .returned (.error ⟨.euclean, "refusing rebuild for " ++ text name ++
        ": replay log may be missing unsynced tail"⟩, later) middle unused := by
  have apart : Apart name world middle := by
    have kept := (@keepsApart_loadEntries roots mode name env front elsewhere loading).stops world answers
    rwa [loaded] at kept
  have leaf : (resolve record.pinPath).leaf = name :=
    leaf_resolve_of_pathHasName (component_of_name valid) pinned
  have presentLater : middle.fileAt (roots.metaPathOf name) = some (some stored) := by
    rw [World.fileAt, apart.files _ (leaf_metaPathOf roots valid)]
    exact present
  have missingLater : middle.pinAt record.pinPath = none := by
    rw [World.pinAt, apart.pins _ leaf]
    exact missing
  rw [loadEntries_append loaded]
  exact @loadEntries_refuses (roots.withMode mode) env name stored record middle lookup valid fits.file
    fits.log presentLater decoded named under pinned durable dirty readable missingLater accepted rest
      later read unused

section Loads

variable {env : Env} {roots : Config} {mode : LogSyncMode} {name : Bytes} {record : MetaRecord} {world : World}

/-- The turn of a dirty record without a pin ends the load. -/
theorem wp_loadRecord_refused {loading : Loading} (accepted : Accepted roots name record world)
    (readable : env.reads (roots.metaPathOf name) = .ok) (durable : record.hasData = true)
    (dirty : record.logClean = false) (missing : world.pinAt record.pinPath = none) :
    wp (loadRecord env (roots.withMode mode) (roots.metaPathOf name) name loading)
      (fun result later => later.pinAt record.pinPath = none ∧ result.1 ≠ .ok ())
      (fun later => later.pinAt record.pinPath = none) world := by
  refine wp_loadRecord_accepted accepted readable missing (fun failure => ⟨missing, nofun⟩) fun _ => ?_
  refine wp_bind (wp_attempt missing (fun errno transient => ?_) ?_)
  · simp only [transient.ne_enoent, ↓reduceIte]
    exact (wp_pure _).mpr ((wp_pure _).mpr ⟨missing, nofun⟩)
  · have gone : world.pinAt (roots.loadedMeta name record).pinPath = none := missing
    have unclean : (roots.loadedMeta name record).logClean = false := dirty
    have filled : (roots.loadedMeta name record).hasData = true := durable
    simp only [gone, unclean, filled, Bool.not_true, Bool.not_false, Bool.false_eq_true, ↓reduceIte]
    exact (wp_pure _).mpr ((wp_pure _).mpr ⟨missing, nofun⟩)

/-- Whatever the calls answer, the load fails and leaves the pin missing. -/
theorem wp_loadMetadataDir_refused (accepted : Accepted roots name record world)
    (readable : env.reads (roots.metaPathOf name) = .ok) (durable : record.hasData = true)
    (dirty : record.logClean = false) (missing : world.pinAt record.pinPath = none)
    (listed : metaLeaf name ∈ env.metaListing roots world) :
    wp (loadMetadataDir env (roots.withMode mode) ⟨.init, .zero⟩)
      (fun result later => later.pinAt record.pinPath = none ∧ result.1 ≠ .ok ())
      (fun later => later.pinAt record.pinPath = none) world := by
  have task : Turn env roots mode name
      (fun later => Accepted roots name record later ∧ later.pinAt record.pinPath = none)
      (fun _ _ => False) (fun later => later.pinAt record.pinPath = none) := by
    have moved : ∀ {before later : World}, Apart name before later →
        later.pinAt record.pinPath = before.pinAt record.pinPath := fun apart => apart.pinAt accepted.leaf
    constructor
    · exact accepted.valid
    · exact accepted.fits
    · exact fun apart held => ⟨held.1.of_file (apart.fileAt accepted.valid roots), (moved apart).trans held.2⟩
    · exact fun _ gone => gone.elim
    · exact fun apart held => (moved apart).trans held
    · exact fun path change held => by rwa [World.pinAt, World.changeLog_pins]
    · exact fun held => held.2
    · exact fun gone => gone.elim
    · intro loading middle held _ _
      apply (wp_loadRecord_refused held.1 readable durable dirty held.2).mono _ fun _ safe => safe
      exact fun result later refused => ⟨refused.1, fun done => refused.2 done⟩
  apply (task.wp_loadMetadataDir listed ⟨accepted, missing⟩).mono _ fun _ safe => safe
  exact fun result later held => ⟨held.1, held.2.2⟩

/-- What a load of the directory does with such a record: it fails and leaves the pin
missing, and if it gets as far as the record, it refuses to rebuild. -/
structure RefusesUnpinned (env : Env) (roots : Config) (mode : LogSyncMode) (name : Bytes) (record : MetaRecord)
    (world : World) : Prop where
  fails : metaLeaf name ∈ env.metaListing roots world → ∀ answers result loaded middle unused,
    loadMetadataDir env (roots.withMode mode) ⟨.init, .zero⟩ world answers =
      .returned (result, loaded) middle unused →
    result ≠ .ok () ∧ middle.pinAt record.pinPath = none
  refuses : ∀ front rest loaded middle lists read lookup answers unused,
    env.metaListing roots world = front ++ metaLeaf name :: rest → Fits roots name →
    lists.refusal = none → lookup.refusal = none →
    loadEntries env (roots.withMode mode) front ⟨.init, .zero⟩ world answers =
      .returned (.ok (), loaded) middle (read :: lookup :: unused) →
    loadMetadataDir env (roots.withMode mode) ⟨.init, .zero⟩ world (lists :: answers) =
      .returned (.error ⟨.euclean, "refusing rebuild for " ++ text name ++
        ": replay log may be missing unsynced tail"⟩, loaded) middle unused

theorem refusesUnpinned (accepted : Accepted roots name record world)
    (readable : env.reads (roots.metaPathOf name) = .ok) (durable : record.hasData = true)
    (dirty : record.logClean = false) (missing : world.pinAt record.pinPath = none) :
    RefusesUnpinned env roots mode name record world where
  fails listed answers result loaded middle unused run := by
    have refused := (wp_loadMetadataDir_refused accepted readable durable dirty missing listed).returned run
    exact ⟨refused.2, refused.1⟩
  refuses front rest loaded middle lists read lookup answers unused split fits opened answered begun := by
    obtain ⟨stored, inside, decoded⟩ := accepted.decoded
    have unique := env.nodup_metaListing roots world
    rw [split] at unique
    have elsewhere : metaLeaf name ∉ front := fun early =>
      (List.nodup_append.mp unique).2.2 _ early _ List.mem_cons_self rfl
    have listed : env.metaListing (roots.withMode mode) world = front ++ metaLeaf name :: rest := split
    rw [loadMetadataDir_listed opened, listed]
    exact loadEntries_refuses_after accepted.valid fits inside decoded accepted.named accepted.under accepted.pinned
      durable dirty readable missing answered elsewhere begun

end Loads

/-- A history that was inherited incomplete is never taken for a complete one, in
any run that does not drop the filter: the flag stays 0 on disk and in memory, and
a load that finds no pin refuses to rebuild. -/
theorem incomplete_history_never_promoted [Libm] {roots : Config} {name : Bytes} {state : State}
    {record : MetaRecord} {actions : List Action} (valid : nameIsValid name = true)
    (stopped : state.daemon = none)
    (present : state.world.fileAt (roots.metaPathOf name) = some (some record))
    (durable : record.hasData = true) (dirty : record.logClean = false)
    (retains : ∀ action ∈ actions, Retains roots name action) :
    (∀ later, (state.run actions).world.fileAt (roots.metaPathOf name) = some (some later) →
      later.hasData = true ∧ later.logClean = false) ∧
    (∀ daemon, (state.run actions).daemon = some daemon → ∀ filter ∈ daemon.set.items,
      filter.name = name → filter.metadata.logClean = false ∧ filter.logHistoryIncomplete = true) ∧
    (∀ stored later env mode front rest loading loaded middle read lookup answers unused,
      (state.run actions).world.fileAt (roots.metaPathOf name) = some (some stored) →
      stored.readBack = some later → later.name = name → pathUnderRoot later.pinPath roots.pinRoot = true →
      pathHasName later.pinPath name = true → Fits roots name →
      env.reads (roots.metaPathOf name) = .ok →
      (state.run actions).world.pinAt later.pinPath = none → lookup.refusal = none →
      metaLeaf name ∉ front →
      loadEntries env (roots.withMode mode) front loading (state.run actions).world answers =
        .returned (.ok (), loaded) middle (read :: lookup :: unused) →
      loadEntries env (roots.withMode mode) (front ++ metaLeaf name :: rest) loading
          (state.run actions).world answers =
        .returned (.error ⟨.euclean, "refusing rebuild for " ++ text name ++
          ": replay log may be missing unsynced tail"⟩, loaded) middle unused) ∧
    ∀ later env mode, Accepted roots name later (state.run actions).world →
      env.reads (roots.metaPathOf name) = .ok → (state.run actions).world.pinAt later.pinPath = none →
      RefusesUnpinned env roots mode name later (state.run actions).world := by
  have tidy : Tidy (dirtyUpkeep roots name valid) state := by
    unfold Tidy
    rw [stopped]
    intro other _ same found inside
    rw [present] at inside
    obtain rfl : record = found := by simpa using inside
    exact ⟨durable, dirty⟩
  have final := tidy.run (permitted_of_retains valid retains)
  have disk : DirtyOnDisk roots name (state.run actions).world := final.resting name valid rfl
  refine ⟨fun later inside => disk later inside, ?_, ?_, ?_⟩
  · intro daemon running filter member named
    unfold Tidy at final
    rw [running] at final
    have memory := (final.tended.live filter member named).1
    exact ⟨memory.logClean, memory.incomplete⟩
  · intro stored later env mode front rest loading loaded middle read lookup answers unused inside
      decoded named under pinned fits readable missing accepted elsewhere begun
    obtain ⟨durable, dirty⟩ : later.hasData = true ∧ later.logClean = false := by
      rw [readBack_eq decoded]
      exact disk stored inside
    exact loadEntries_refuses_after valid fits inside decoded named under pinned durable dirty readable missing
      accepted elsewhere begun
  · intro later env mode accepted readable missing
    obtain ⟨stored, inside, decoded⟩ := accepted.decoded
    obtain ⟨durable, dirty⟩ : later.hasData = true ∧ later.logClean = false := by
      rw [readBack_eq decoded]
      exact disk stored inside
    exact refusesUnpinned accepted readable durable dirty missing

/-- A record of the small installation that was left dirty, with its pin -/
def dirtyRecord : MetaRecord where
  name := demoName
  backend := backendName
  digest := digestName
  pinPath := bytes "/p/x"
  capacity := 100
  errorRate := 0x3f847ae147ae147b
  hashes := 3
  valueSize := digestSize
  version := metadataVersion
  hasData := true
  logClean := false

def dirtyWorld : World :=
  ((((World.empty.setFile (bytes "/m/x.meta") (some dirtyRecord)).setLog (bytes "/m/x.digests")
    .empty).addMap ⟨createdMapInfo 100 3, []⟩).setPin (bytes "/p/x") 0)

/-- The dirty filter is loaded, added to and synced, and the machine reboots. -/
def inheritedRun : List Action :=
  [.restart .plain demoRoots 7 plenty, .request (.add demoName (bytes "a")) plenty,
    .sync 1000 true plenty, .reboot fun _ => []]

theorem incomplete_history_never_promoted_rebooted :
    (∀ later, (@State.run exactLibm ⟨dirtyWorld, none, fun _ => []⟩ inheritedRun).world.fileAt
        (demoRoots.metaPathOf demoName) = some (some later) →
      later.hasData = true ∧ later.logClean = false) ∧
    (@State.run exactLibm ⟨dirtyWorld, none, fun _ => []⟩ inheritedRun).world.fileAt
      (demoRoots.metaPathOf demoName) = some (some dirtyRecord) ∧
    ∀ answers result loaded middle unused,
      loadMetadataDir .plain demoRoots ⟨.init, .zero⟩
          (@State.run exactLibm ⟨dirtyWorld, none, fun _ => []⟩ inheritedRun).world answers =
        .returned (result, loaded) middle unused →
      result ≠ .ok () ∧ middle.pinAt dirtyRecord.pinPath = none := by
  have retains : ∀ action ∈ inheritedRun, Retains demoRoots demoName action := by
    intro action member
    simp only [inheritedRun, List.mem_cons, List.not_mem_nil, or_false] at member
    rcases member with rfl | rfl | rfl | rfl
    · rfl
    · trivial
    · trivial
    · trivial
  have kept := @incomplete_history_never_promoted exactLibm demoRoots demoName ⟨dirtyWorld, none, fun _ => []⟩
    dirtyRecord inheritedRun (by decide) rfl (by decide +kernel) rfl rfl retains
  have present : (@State.run exactLibm ⟨dirtyWorld, none, fun _ => []⟩ inheritedRun).world.fileAt
      (demoRoots.metaPathOf demoName) = some (some dirtyRecord) := by
    decide +kernel
  have accepted : Accepted demoRoots demoName dirtyRecord
      (@State.run exactLibm ⟨dirtyWorld, none, fun _ => []⟩ inheritedRun).world :=
    ⟨by decide, by decide, ⟨_, present, by decide +kernel⟩, rfl, by decide +kernel, by decide +kernel⟩
  have loads := kept.2.2.2 dirtyRecord .plain .always accepted rfl (by decide +kernel)
  exact ⟨kept.1, present, loads.fails (by decide +kernel)⟩

end Bloomd
