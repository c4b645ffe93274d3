import Bloomd.LogSession
import Bloomd.RequestInvariant

/-! The part of the world that belongs to one filter: its metadata file, its log,
its pin and the kernel maps. The steps of the durable-write path are described by
what they do to this view, for every outcome of their calls. -/

namespace Bloomd

open CrashLogic Prog

structure View where
  file : Option (Option MetaRecord)
  log : Option LogFile
  pin : Option Nat
  maps : List KernelMap

def World.view (world : World) (roots : Config) (name : Bytes) : View where
  file := world.fileAt (roots.metaPathOf name)
  log := world.logAt (roots.logPathOf name)
  pin := world.pinAt (roots.pinPathOf name)
  maps := world.maps

namespace View

/-- The bytes of the log that an fsync has made durable -/
def stable (view : View) : Bytes := (view.log.map LogFile.stable).getD []

def data (view : View) : Bytes := (view.log.map LogFile.data).getD []

def contents (view : View) (map : Nat) : List Digest :=
  (view.maps[map]?.map KernelMap.contents).getD []

theorem with_log {view : View} {file : LogFile} (present : view.log = some file) :
    { view with log := some file } = view := by
  cases view
  simp_all

end View

namespace World

variable {world : World} {roots : Config} {name : Bytes}

theorem view_setFile : (world.setFile (roots.metaPathOf name) file).view roots name =
    { world.view roots name with file := some file } := by
  simp [view, fileAt, logAt, pinAt]

theorem view_setLog : (world.setLog (roots.logPathOf name) log).view roots name =
    { world.view roots name with log := some log } := by
  simp [view, fileAt, logAt, pinAt]

theorem view_changeLog : (world.changeLog (roots.logPathOf name) change).view roots name =
    { world.view roots name with log := (world.view roots name).log.map change } := by
  simp [view, fileAt, logAt_changeLog, pinAt]

theorem view_dropLog : (world.dropLog (roots.logPathOf name)).view roots name =
    { world.view roots name with log := none } := by
  simp [view, fileAt, logAt, pinAt]

theorem view_setPin : (world.setPin (roots.pinPathOf name) map).view roots name =
    { world.view roots name with pin := some map } := by
  simp [view, fileAt, logAt, pinAt]

theorem view_dropPin : (world.dropPin (roots.pinPathOf name)).view roots name =
    { world.view roots name with pin := none } := by
  simp [view, fileAt, logAt, pinAt]

theorem view_addDigest : (world.addDigest map digest).view roots name =
    { world.view roots name with maps := (world.addDigest map digest).maps } := rfl

theorem view_setFile_ne (different : resolve path ≠ resolve (roots.metaPathOf name)) :
    (world.setFile path file).view roots name = world.view roots name := by
  simp [view, fileAt, logAt, pinAt, AList.lookup_insert_ne (Ne.symm different)]

theorem view_dropFile_ne (different : resolve path ≠ resolve (roots.metaPathOf name)) :
    (world.dropFile path).view roots name = world.view roots name := by
  simp [view, fileAt, logAt, pinAt, AList.lookup_erase_ne (Ne.symm different)]

end World

theorem LogNow.view (now : LogNow (roots.logPathOf name) log world after) :
    after.view roots name = { world.view roots name with log := some log } := by
  simp [World.view, World.fileAt, World.pinAt, now.now, now.files, now.pins, now.maps]

section Metadata

variable {world : World} {roots : Config} {metadata : FilterMeta}

/-- The temporary file is not the metadata file. -/
theorem Placed.temp_ne (placed : Placed roots metadata) (pid : Nat) :
    resolve (tempPath metadata.metaPath pid) ≠ resolve (roots.metaPathOf metadata.name) := by
  intro same
  obtain ⟨front, n, numbered⟩ := placed.temp_numbered pid
  rw [same, leaf_metaPathOf roots placed.valid] at numbered
  exact copy_ne_metaLeaf front n _ numbered.symm

/-- A write that is given up leaves the record as it was. -/
theorem wp_abandonTemp {temp : Bytes} {before : View}
    (different : resolve temp ≠ resolve (roots.metaPathOf metadata.name))
    (errno : Errno) (same : world.view roots metadata.name = before) :
    wp (abandonTemp temp errno)
      (fun result after => match result with
        | .ok _ => after.view roots metadata.name =
            { before with file := some (some metadata.toMetaRecord) }
        | .error _ => after.view roots metadata.name = before)
      (fun after => after.view roots metadata.name = before ∨ after.view roots metadata.name =
        { before with file := some (some metadata.toMetaRecord) }) world := by
  refine wp_bind (wp_attempt (Or.inl same) (fun _ _ => (wp_pure _).mpr same) ?_)
  split
  · exact (wp_pure _).mpr ((World.view_dropFile_ne different).trans same)
  · exact (wp_pure _).mpr same

/-- From the written temporary file on -/
theorem wp_putInPlace {temp : Bytes} {before : View} (placed : Placed roots metadata)
    (different : resolve temp ≠ resolve (roots.metaPathOf metadata.name))
    (filled : world.view roots metadata.name = before)
    (there : world.fileAt temp = some (some metadata.toMetaRecord)) :
    wp (do
      match ← sysSilent with
      | .error errno => abandonTemp temp errno
      | .ok () =>
        match ← sysRename temp metadata.metaPath with
        | .error errno => abandonTemp temp errno
        | .ok () =>
          match ← sysSilent with
          | .error _ => pure (.ok ())
          | .ok () => do
            let _ ← sysSilent
            pure (.ok ()))
      (fun result after => match result with
        | .ok _ => after.view roots metadata.name =
            { before with file := some (some metadata.toMetaRecord) }
        | .error _ => after.view roots metadata.name = before)
      (fun after => after.view roots metadata.name = before ∨ after.view roots metadata.name =
        { before with file := some (some metadata.toMetaRecord) }) world := by
  refine wp_bind (wp_attempt (Or.inl filled) (fun errno _ => wp_abandonTemp different errno filled) ?_)
  refine wp_bind (wp_attempt (Or.inl filled) (fun errno _ => wp_abandonTemp different errno filled) ?_)
  rw [there]
  have renamed :
      ((world.dropFile temp).setFile metadata.metaPath (some metadata.toMetaRecord)).view roots metadata.name =
      { before with file := some (some metadata.toMetaRecord) } := by
    rw [placed.file, World.view_setFile, World.view_dropFile_ne different, filled]
  refine wp_bind (wp_attempt (Or.inr renamed) (fun _ _ => (wp_pure _).mpr renamed) ?_)
  refine wp_bind (wp_attempt (Or.inr renamed) (fun _ _ => (wp_pure _).mpr renamed) ?_)
  exact (wp_pure _).mpr renamed

/-- `bloomd_meta_write_atomic` puts the record in place or leaves the file as it
was; a crash may do either. -/
theorem wp_metaWriteAtomic (placed : Placed roots metadata) :
    wp (metaWriteAtomic metadata)
      (fun result after => match result with
        | .ok _ => after.view roots metadata.name =
            { world.view roots metadata.name with file := some (some metadata.toMetaRecord) }
        | .error _ => after.view roots metadata.name = world.view roots metadata.name)
      (fun after => after.view roots metadata.name = world.view roots metadata.name ∨
        after.view roots metadata.name =
          { world.view roots metadata.name with file := some (some metadata.toMetaRecord) })
      world := by
  unfold metaWriteAtomic
  split
  · exact (wp_pure _).mpr rfl
  · refine wp_bind ((wp_inspect _).mpr ?_)
    have different := placed.temp_ne world.pid
    set temp := tempPath metadata.metaPath world.pid
    set before := world.view roots metadata.name
    simp only
    split
    · exact (wp_pure _).mpr rfl
    · refine wp_bind (wp_attempt (Or.inl rfl) (fun _ _ => (wp_pure _).mpr rfl) ?_)
      have created : (world.setFile temp none).view roots metadata.name = before :=
        World.view_setFile_ne different
      refine wp_bind ((wp_call _).mpr ⟨Or.inl created, fun answer => ?_⟩)
      have filled : ((world.setFile temp none).setFile temp (some metadata.toMetaRecord)).view roots
          metadata.name = before := (World.view_setFile_ne different).trans created
      have there : ((world.setFile temp none).setFile temp (some metadata.toMetaRecord)).fileAt temp =
          some (some metadata.toMetaRecord) := by simp [World.fileAt]
      have written := wp_putInPlace placed different filled there
      cases answer with
      | fail fault => exact wp_abandonTemp different _ created
      | ok => exact written
      | interrupted => exact written
      | count n => exact written
      | time now => exact written

end Metadata

section Filter

variable {world : World} {roots : Config} {filter : Filter}

theorem wp_logOpen (placed : Placed roots filter.metadata) (truncate : Bool) :
    wp (logOpen filter.metadata.logPath truncate)
      (fun result after => match result with
        | .error _ => after.view roots filter.name = world.view roots filter.name
        | .ok fd => fd = filter.metadata.logPath ∧
            after.view roots filter.name = { world.view roots filter.name with
              log := some (if truncate then .empty
                else (world.view roots filter.name).log.getD .empty) })
      (fun after => after.view roots filter.name = world.view roots filter.name) world := by
  cases truncate with
  | true =>
    refine wp_attempt rfl (fun _ _ => rfl) ?_
    rw [placed.log]
    cases world.logAt (roots.logPathOf filter.metadata.name) with
    | some log => exact ⟨rfl, World.view_setLog⟩
    | none => exact ⟨rfl, World.view_setLog⟩
  | false =>
    refine wp_attempt rfl (fun _ _ => rfl) ?_
    rw [placed.log]
    cases present : world.logAt (roots.logPathOf filter.metadata.name) with
    | some log =>
      have there : (world.view roots filter.name).log = some log := present
      refine ⟨rfl, ?_⟩
      rw [there]
      exact (View.with_log there).symm
    | none =>
      have missing : (world.view roots filter.name).log = none := present
      refine ⟨rfl, ?_⟩
      rw [missing]
      exact World.view_setLog

theorem wp_openFilterLog (placed : Placed roots filter.metadata) (truncate : Bool) :
    wp (openFilterLog filter truncate)
      (fun result after => match result.1 with
        | .error _ => result.2 = { filter with logFd := none } ∧
            after.view roots filter.name = world.view roots filter.name
        | .ok _ => ∃ now, result.2 = { filter with
              logFd := some filter.metadata.logPath, logBuf := [], logDirty := false,
              lastLogSyncMs := now } ∧
            after.view roots filter.name = { world.view roots filter.name with
              log := some (if truncate then .empty
                else (world.view roots filter.name).log.getD .empty) })
      (fun after => after.view roots filter.name = world.view roots filter.name ∨
        after.view roots filter.name = { world.view roots filter.name with
          log := some (if truncate then .empty
            else (world.view roots filter.name).log.getD .empty) }) world := by
  refine wp_bind ((wp_logOpen placed truncate).mono ?_ fun _ same => Or.inl same)
  intro result after held
  cases result with
  | error errno => exact (wp_pure _).mpr ⟨rfl, held⟩
  | ok fd =>
    obtain ⟨rfl, seen⟩ := held
    refine wp_bind ((wp_call _).mpr ⟨Or.inr seen, fun answer => ?_⟩)
    exact (wp_pure _).mpr ⟨answer.clock, rfl, seen⟩

theorem wp_updateFilterMetaState (placed : Placed roots filter.metadata) (hasData logClean : Bool) :
    wp (updateFilterMetaState filter hasData logClean)
      (fun result after => match result.1 with
        | .error _ => result.2 = filter ∧
            after.view roots filter.name = world.view roots filter.name
        | .ok _ => result.2 = { filter with
              metadata := filter.metadata.withState hasData logClean } ∧
            after.view roots filter.name = { world.view roots filter.name with
              file := some (some (filter.metadata.withState hasData logClean).toMetaRecord) })
      (fun after => after.view roots filter.name = world.view roots filter.name ∨
        after.view roots filter.name = { world.view roots filter.name with
          file := some (some (filter.metadata.withState hasData logClean).toMetaRecord) }) world := by
  have writes := @wp_metaWriteAtomic world roots _ (placed.withState hasData logClean)
  unfold updateFilterMetaState
  refine wp_bind (writes.mono ?_ fun _ held => held)
  intro result after held
  cases result with
  | error errno => exact (wp_pure _).mpr ⟨rfl, held⟩
  | ok done => exact (wp_pure _).mpr ⟨rfl, held⟩

theorem wp_bpfAddDigest {post : Except Failure Unit → World → Prop} {crash : World → Prop}
    (before : crash world) (failed : ∀ failure, post (.error failure) world)
    (done : post (.ok ()) (world.addDigest map digest)) :
    wp (bpfAddDigest map digest) post crash world := by
  refine wp_bind (wp_attempt before ?_ ?_)
  · exact fun errno _ => (wp_pure _).mpr (failed _)
  · exact (wp_pure _).mpr done

end Filter

/-- A digest was staged: it follows the bytes of the log and of the buffer. In
`always` mode all of them are durable. -/
structure Advance (mode : LogSyncMode) (digest : Digest) (buf : Bytes) (log : LogFile)
    (later : Bytes) (after : LogFile) : Prop where
  bytes : after.data ++ later = log.data ++ buf ++ digest.val
  written : ∃ chunk, after.data = log.data ++ chunk ∧ chunk.length % digestSize = 0
  stable : log.stable <+: after.stable
  whole : later.length % digestSize = 0
  room : later.length ≤ logBufferCap
  synced : mode = .always → later = [] ∧ after.tail = []

/-- A digest was not added: the durable bytes are still there, and in `periodic`
mode no record of the log or the buffer got lost, as long as the log ends with a
whole record. -/
structure Setback (mode : LogSyncMode) (buf : Bytes) (log : LogFile)
    (later : Bytes) (after : LogFile) : Prop where
  stable : log.stable <+: after.stable
  whole : later.length % digestSize = 0
  room : later.length ≤ logBufferCap
  retained : mode = .periodic → log.data.length % digestSize = 0 →
    after.data.length % digestSize = 0 →
      Framing.records digestSize (log.data ++ buf) ⊆ Framing.records digestSize (after.data ++ later)

section Staging

variable {buf : Bytes} {log : LogFile} {digest : Digest}

theorem Setback.same (mode : LogSyncMode) (whole : buf.length % digestSize = 0)
    (room : buf.length ≤ logBufferCap) : Setback mode buf log buf log :=
  ⟨List.prefix_refl _, whole, room, fun _ _ _ => List.Subset.refl _⟩

/-- A write stopped early and the buffer stays. -/
theorem Setback.stopped (mode : LogSyncMode) (whole : buf.length % digestSize = 0)
    (room : buf.length ≤ logBufferCap) (written : Bytes) :
    Setback mode buf log buf (log.append written) := by
  refine ⟨List.prefix_refl _, whole, room, fun _ framed aligned => ?_⟩
  rw [LogFile.data_append] at aligned ⊢
  rw [Framing.records_append digestSize_pos framed, Framing.records_append digestSize_pos aligned]
  have front := (Framing.records_grow digestSize_pos log.data written).sublist
  exact (front.append (List.Sublist.refl _)).subset

/-- All of the buffer was written out before a digest found no place. -/
theorem Setback.drained (mode : LogSyncMode) : Setback mode buf log [] (log.append buf) := by
  refine ⟨List.prefix_refl _, rfl, Nat.zero_le _, fun _ _ _ => ?_⟩
  rw [LogFile.data_append, List.append_nil]
  exact List.Subset.refl _

/-- In `always` mode only the durable bytes count. -/
theorem Setback.always {later : Bytes} {after : LogFile} (stable : log.stable <+: after.stable)
    (whole : later.length % digestSize = 0) (room : later.length ≤ logBufferCap) :
    Setback .always buf log later after :=
  ⟨stable, whole, room, fun mode => by cases mode⟩

variable {world : World} {roots : Config} {filter : Filter} {path : Bytes}

/-- The flush of `always` mode, after the bytes `front` of the buffer were written
out to make room -/
theorem wp_stageFlush {front kept : Bytes} {middle : World} (whole : buf.length % digestSize = 0)
    (split : front ++ kept = buf ++ digest.val) (wholeKept : kept.length % digestSize = 0)
    (room : kept.length ≤ logBufferCap) (now : LogNow path (log.append front) world middle) :
    wp (logBufferFlush (some path) kept true)
      (fun result after => ∃ log', LogNow path log' world after ∧ match result.1 with
        | .error _ => Setback .always buf log result.2 log'
        | .ok _ => Advance .always digest buf log result.2 log')
      (fun after => ∃ log', log.stable <+: log'.stable ∧ LogNow path log' world after) middle := by
  have stable : ∀ written, log.stable <+: ((log.append front).append written).stable :=
    fun _ => List.prefix_refl _
  refine (wp_logBufferFlush_sync now.now kept).mono ?_ ?_
  · rintro ⟨flushed, later⟩ after outcome
    rcases outcome with ⟨same, more⟩ | ⟨errno, written, same, _, more⟩ | ⟨errno, same, more⟩
    · obtain ⟨rfl, rfl⟩ := Prod.mk.inj same
      have all : ((log.append front).append kept).data = log.data ++ (buf ++ digest.val) := by
        rw [LogFile.append_append, split, LogFile.data_append]
      refine ⟨_, now.trans more, ⟨?_, ⟨_, ?_, length_append_whole whole (length_digest digest)⟩, ?_,
        rfl, Nat.zero_le _, fun _ => ⟨rfl, rfl⟩⟩⟩
      · rw [LogFile.data_synced, all, List.append_nil, List.append_assoc]
      · rw [LogFile.data_synced, all]
      · exact List.prefix_append log.stable _
    · obtain ⟨rfl, rfl⟩ := Prod.mk.inj same
      exact ⟨_, now.trans more, .always (stable written) wholeKept room⟩
    · obtain ⟨rfl, rfl⟩ := Prod.mk.inj same
      exact ⟨_, now.trans more, .always (stable kept) rfl (Nat.zero_le _)⟩
  · rintro after ⟨written, _, more⟩
    exact ⟨_, stable written, now.trans more⟩

/-- `bloomd_stage_digest_for_add` on an open log -/
theorem wp_stageDigestForAdd (opened : filter.logFd = some path)
    (present : world.logAt path = some log) (whole : filter.logBuf.length % digestSize = 0)
    (room : filter.logBuf.length ≤ logBufferCap) (digest : Digest) (mode : LogSyncMode) :
    wp (stageDigestForAdd filter digest mode)
      (fun result after => ∃ later log', result.2 = { filter with logBuf := later } ∧
        LogNow path log' world after ∧ match result.1 with
        | .error _ => Setback mode filter.logBuf log later log'
        | .ok stage => Advance mode digest filter.logBuf log later log' ∧
            stage.prevBufLen = filter.logBuf.length ∧ stage.canTruncate = (mode == .always) ∧
            (mode = .always → stage.prevFileSize = log.data.length) ∧
            if stage.overflowFlush then log' = log.append filter.logBuf ∨ mode = .always
            else later = filter.logBuf ++ digest.val ∧ log' = log ∨ mode = .always)
      (fun after => ∃ log', log.stable <+: log'.stable ∧ LogNow path log' world after) world := by
  have here : LogNow path log world world := .here present
  have grown : ∀ written, log.stable <+: (log.append written).stable := fun _ => List.prefix_refl _
  have sizes : wp (stageFileSize filter mode)
      (fun result after => after = world ∧ (mode = .always → ∀ size, result = .ok size →
        size = log.data.length))
      (fun after => after = world) world := by
    unfold stageFileSize
    cases mode with
    | periodic => exact (wp_pure _).mpr ⟨rfl, fun mode => by cases mode⟩
    | always =>
      simp only [opened]
      refine wp_attempt rfl (fun _ _ => ⟨rfl, fun _ _ failed => by cases failed⟩) ⟨rfl, ?_⟩
      rintro _ size measured
      cases measured
      rw [present]
      rfl
  refine wp_bind (sizes.mono ?_ ?_)
  swap
  · rintro after rfl
    exact ⟨log, List.prefix_refl _, here⟩
  · rintro measured middle ⟨rfl, exactSize⟩
    cases measured with
    | error errno => exact (wp_pure _).mpr ⟨_, log, rfl, here, .same mode whole room⟩
    | ok prevFileSize =>
      have size := fun always => exactSize always prevFileSize rfl
      simp only
      rw [opened]
      refine wp_bind ((wp_logBufferAppend present filter.logBuf room digest).mono ?_ ?_)
      swap
      · rintro after ⟨written, _, now⟩
        exact ⟨_, grown written, now⟩
      · rintro ⟨appended, later⟩ after outcome
        rcases outcome with ⟨same, fits, now⟩ | ⟨same, full, now⟩ | ⟨errno, written, same, _, now⟩
        · obtain ⟨rfl, rfl⟩ := Prod.mk.inj same
          have wholeLater := length_append_whole whole (length_digest digest)
          have roomLater : (filter.logBuf ++ digest.val).length ≤ logBufferCap := by
            rw [List.length_append, digest.property]
            exact fits
          have calm : ¬ logBufferCap < filter.logBuf.length + digestSize := by omega
          cases mode with
          | periodic =>
            refine (wp_pure _).mpr ⟨_, log, rfl, now, ⟨?_, ⟨[], by simp, rfl⟩, List.prefix_refl _,
              wholeLater, roomLater, fun mode => by cases mode⟩, rfl, rfl, size, ?_⟩
            · rw [List.append_assoc]
            · simp [calm]
          | always =>
            have fresh : LogNow path (log.append []) middle after := by rwa [LogFile.append_nil]
            refine wp_bind ((wp_stageFlush whole (List.nil_append _) wholeLater roomLater fresh).mono ?_
              fun _ held => held)
            rintro ⟨flushed, last⟩ final ⟨log', more, outcome⟩
            cases flushed with
            | error errno => exact (wp_pure _).mpr ⟨_, _, rfl, more, outcome⟩
            | ok done =>
              exact (wp_pure _).mpr ⟨_, _, rfl, more, outcome, rfl, rfl, size, by simp [calm]⟩
        · obtain ⟨rfl, rfl⟩ := Prod.mk.inj same
          have roomLater : digest.val.length ≤ logBufferCap := by
            rw [digest.property]
            decide
          cases mode with
          | periodic =>
            refine (wp_pure _).mpr ⟨_, _, rfl, now, ⟨?_, ⟨_, by rw [LogFile.data_append], whole⟩, grown _,
              length_digest digest, roomLater, fun mode => by cases mode⟩, rfl, rfl, size, ?_⟩
            · rw [LogFile.data_append]
            · simp [full]
          | always =>
            refine wp_bind ((wp_stageFlush whole rfl (length_digest digest) roomLater now).mono ?_
              fun _ held => held)
            rintro ⟨flushed, last⟩ final ⟨log', more, outcome⟩
            cases flushed with
            | error errno => exact (wp_pure _).mpr ⟨_, _, rfl, more, outcome⟩
            | ok done =>
              exact (wp_pure _).mpr ⟨_, _, rfl, more, outcome, rfl, rfl, size, by simp [full]⟩
        · obtain ⟨rfl, rfl⟩ := Prod.mk.inj same
          exact (wp_pure _).mpr ⟨_, _, rfl, now, .stopped mode whole room written⟩

theorem wp_logTruncate (present : world.logAt path = some log) (length : Nat) :
    wp (logTruncate (some path) length true)
      (fun _ after => LogNow path log world after ∨ LogNow path (log.truncate length) world after ∨
        LogNow path (log.truncate length).synced world after)
      (fun after => LogNow path log world after ∨ LogNow path (log.truncate length) world after)
      world := by
  have here : LogNow path log world world := .here present
  refine wp_bind (wp_attempt (Or.inl here) (fun _ _ => (wp_pure _).mpr (Or.inl here)) ?_)
  have cut : LogNow path (log.truncate length) world (world.changeLog path (·.truncate length)) :=
    .change present (·.truncate length)
  refine wp_attempt (Or.inr cut) (fun _ _ => Or.inr (Or.inl cut)) ?_
  exact Or.inr (Or.inr (cut.trans (.change cut.now _)))

/-- Taking back what was staged in `always` mode leaves the durable bytes. -/
theorem Advance.stable_truncate {later : Bytes} {after : LogFile}
    (advance : Advance .always digest buf log later after) :
    log.stable <+: (after.truncate log.data.length).stable := by
  obtain ⟨chunk, split, _⟩ := advance.written
  have all : after.stable = log.data ++ chunk := by
    rw [← split, LogFile.data, (advance.synced rfl).2, List.append_nil]
  have cut : (after.truncate log.data.length).stable = log.data := by
    rw [LogFile.truncate, all, List.take_left]
  rw [cut]
  exact List.prefix_append _ _

/-- `bloomd_rollback_staged_digest` after a staged digest -/
theorem wp_rollbackStagedDigest {middle : World} {stage : LogStage} {later : Bytes} {log' : LogFile}
    {mode : LogSyncMode} (opened : filter.logFd = some path) (now : LogNow path log' world middle)
    (whole : buf.length % digestSize = 0) (room : buf.length ≤ logBufferCap)
    (kept : filter.logBuf = later) (advance : Advance mode digest buf log later log')
    (previous : stage.prevBufLen = buf.length) (truncates : stage.canTruncate = (mode == .always))
    (size : mode = .always → stage.prevFileSize = log.data.length)
    (overflow : if stage.overflowFlush then log' = log.append buf ∨ mode = .always
      else later = buf ++ digest.val ∧ log' = log ∨ mode = .always) :
    wp (rollbackStagedDigest filter stage mode)
      (fun result after => ∃ last log'' dirty, result = { filter with logBuf := last, logDirty := dirty } ∧
        LogNow path log'' world after ∧ Setback mode buf log last log'')
      (fun after => ∃ log'', log.stable <+: log''.stable ∧ LogNow path log'' world after) middle := by
  cases mode with
  | periodic =>
    refine (wp_pure _).mpr ⟨_, _, _, rfl, now, ?_⟩
    by_cases full : stage.overflowFlush = true
    · rw [if_pos full] at overflow
      rcases overflow with rfl | mode
      · simp only [full, ↓reduceIte]
        exact .drained .periodic
      · cases mode
    · rw [if_neg full] at overflow
      rcases overflow with ⟨rfl, rfl⟩ | mode
      · simp only [Bool.not_eq_true _ ▸ full, Bool.false_eq_true, ↓reduceIte, previous, kept, List.take_left]
        exact .same .periodic whole room
      · cases mode
  | always =>
    have cuts : stage.canTruncate = true := truncates
    simp only [rollbackStagedDigest, cuts, ↓reduceIte, opened, size rfl]
    have outcome : ∀ after, LogNow path log' middle after ∨
        LogNow path (log'.truncate log.data.length) middle after ∨
        LogNow path (log'.truncate log.data.length).synced middle after →
        ∃ log'', log.stable <+: log''.stable ∧ LogNow path log'' world after := by
      rintro after (same | cut | synced)
      · exact ⟨_, advance.stable, now.trans same⟩
      · exact ⟨_, advance.stable_truncate, now.trans cut⟩
      · exact ⟨_, advance.stable_truncate.trans (List.prefix_append _ _), now.trans synced⟩
    refine wp_bind ((wp_logTruncate now.now _).mono ?_ ?_)
    · intro _ after held
      obtain ⟨log'', stable, final⟩ := outcome after held
      exact (wp_pure _).mpr ⟨_, _, _, rfl, final, .always stable rfl (Nat.zero_le _)⟩
    · intro after held
      exact outcome after (held.imp_right Or.inl)

/-- The clean flag is set again, or everything stays as it is. -/
theorem wp_undoMark (placed : Placed roots filter.metadata) (undo : Bool) :
    wp (undoMark filter undo)
      (fun later after =>
        (later = filter ∧ after.view roots filter.name = world.view roots filter.name) ∨
        (undo = true ∧ later = { filter with metadata := filter.metadata.withState true true } ∧
          after.view roots filter.name = { world.view roots filter.name with
            file := some (some (filter.metadata.withState true true).toMetaRecord) }))
      (fun after => after.view roots filter.name = world.view roots filter.name ∨
        (undo = true ∧ after.view roots filter.name = { world.view roots filter.name with
          file := some (some (filter.metadata.withState true true).toMetaRecord) })) world := by
  cases undo with
  | false => exact (wp_pure _).mpr (Or.inl ⟨rfl, rfl⟩)
  | true =>
    refine wp_bind ((wp_updateFilterMetaState placed true true).mono ?_ ?_)
    · rintro ⟨updated, later⟩ after held
      cases updated with
      | error failure =>
        obtain ⟨rfl, seen⟩ := held
        exact (wp_pure _).mpr (Or.inl ⟨rfl, seen⟩)
      | ok done =>
        obtain ⟨rfl, seen⟩ := held
        exact (wp_pure _).mpr (Or.inr ⟨rfl, rfl, seen⟩)
    · exact fun after held => held.imp_right fun seen => ⟨rfl, seen⟩

/-- The outcomes of staging a digest and updating the map: the digest is in both,
or in neither and the clean flag may have been set again. -/
inductive Addition (mode : LogSyncMode) (digest : Digest) (undo : Bool) (filter : Filter)
    (log : LogFile) (before : View) : Except Reply Unit → Filter → View → Prop where
  | added (later : Bytes) (log' : LogFile) (dirty : Bool) (now : Nat)
      (advance : Advance mode digest filter.logBuf log later log') :
      Addition mode digest undo filter log before (.ok ())
        { filter with logBuf := later, logDirty := dirty, lastLogSyncMs := now }
        { before with log := some log', maps := before.maps.modify filter.mapFd fun kernel =>
            { kernel with contents := kernel.contents ++ [digest] } }
  | failed (reply : Reply) (later : Bytes) (log' : LogFile) (dirty : Bool)
      (setback : Setback mode filter.logBuf log later log') :
      Addition mode digest undo filter log before (.error reply)
        { filter with logBuf := later, logDirty := dirty } { before with log := some log' }
  | reflagged (reply : Reply) (later : Bytes) (log' : LogFile) (dirty : Bool)
      (setback : Setback mode filter.logBuf log later log') (undone : undo = true) :
      Addition mode digest undo filter log before (.error reply)
        { filter with
          logBuf := later, logDirty := dirty
          metadata := filter.metadata.withState true true }
        { before with
          log := some log'
          file := some (some (filter.metadata.withState true true).toMetaRecord) }

/-- What a crash in the course of an addition may leave -/
inductive Interrupted (mode : LogSyncMode) (digest : Digest) (undo : Bool) (filter : Filter)
    (log : LogFile) (before : View) : View → Prop where
  | staging (log' : LogFile) (stable : log.stable <+: log'.stable) :
      Interrupted mode digest undo filter log before { before with log := some log' }
  | reflagging (log' : LogFile) (stable : log.stable <+: log'.stable) (undone : undo = true) :
      Interrupted mode digest undo filter log before
        { before with
          log := some log'
          file := some (some (filter.metadata.withState true true).toMetaRecord) }
  | updated (later : Bytes) (log' : LogFile)
      (advance : Advance mode digest filter.logBuf log later log') :
      Interrupted mode digest undo filter log before
        { before with log := some log', maps := before.maps.modify filter.mapFd fun kernel =>
            { kernel with contents := kernel.contents ++ [digest] } }

theorem wp_addStaged (placed : Placed roots filter.metadata)
    (opened : filter.logFd = some (roots.logPathOf filter.name))
    (present : (world.view roots filter.name).log = some log)
    (whole : filter.logBuf.length % digestSize = 0) (room : filter.logBuf.length ≤ logBufferCap)
    (digest : Digest) (mode : LogSyncMode) (undo : Bool) :
    wp (addStaged filter digest mode undo)
      (fun result after => Addition mode digest undo filter log (world.view roots filter.name)
        result.1 result.2 (after.view roots filter.name))
      (fun after => Interrupted mode digest undo filter log (world.view roots filter.name)
        (after.view roots filter.name)) world := by
  have fallen : ∀ (log' : LogFile) after, log.stable <+: log'.stable →
      LogNow (roots.logPathOf filter.name) log' world after →
      Interrupted mode digest undo filter log (world.view roots filter.name)
        (after.view roots filter.name) := by
    intro log' after stable now
    rw [now.view]
    exact .staging log' stable
  -- a failed addition ends with the flag's own write
  have undoes : ∀ reply later log' dirty middle, Setback mode filter.logBuf log later log' →
      LogNow (roots.logPathOf filter.name) log' world middle →
      wp (do
        let filter ← undoMark { filter with logBuf := later, logDirty := dirty } undo
        pure (Except.error reply, filter))
        (fun result after => Addition mode digest undo filter log (world.view roots filter.name)
          result.1 result.2 (after.view roots filter.name))
        (fun after => Interrupted mode digest undo filter log (world.view roots filter.name)
          (after.view roots filter.name)) middle := by
    intro reply later log' dirty middle setback now
    have seen := now.view
    have marks := @wp_undoMark middle roots
      { filter with logBuf := later, logDirty := dirty } placed undo
    refine wp_bind (marks.mono ?_ ?_)
    · rintro last after (⟨rfl, same⟩ | ⟨rfl, rfl, changed⟩)
      · refine (wp_pure _).mpr ?_
        rw [same, seen]
        exact .failed reply later log' dirty setback
      · refine (wp_pure _).mpr ?_
        rw [changed, seen]
        exact .reflagged reply later log' dirty setback rfl
    · rintro after (same | ⟨rfl, changed⟩)
      · rw [same, seen]
        exact .staging log' setback.stable
      · rw [changed, seen]
        exact .reflagging log' setback.stable rfl
  refine wp_bind ((wp_stageDigestForAdd opened present whole room digest mode).mono ?_ ?_)
  swap
  · rintro after ⟨log', stable, now⟩
    exact fallen log' after stable now
  · rintro ⟨staged, middle⟩ after ⟨later, log', rfl, now, outcome⟩
    cases staged with
    | error errno => exact undoes _ later log' filter.logDirty after outcome now
    | ok stage =>
      obtain ⟨advance, previous, truncates, size, overflow⟩ := outcome
      have updatedView : (after.addDigest filter.mapFd digest).view roots filter.name =
          { world.view roots filter.name with
            log := some log', maps := world.maps.modify filter.mapFd fun kernel =>
              { kernel with contents := kernel.contents ++ [digest] } } := by
        rw [World.view_addDigest, now.view, World.addDigest_maps, now.maps]
      refine wp_bind (wp_bpfAddDigest (fallen log' after advance.stable now) ?_ ?_)
      · intro failure
        have rolls := @wp_rollbackStagedDigest filter.logBuf log digest world
          { filter with logBuf := later } (roots.logPathOf filter.name) after stage later log' mode opened now
          whole room rfl advance previous truncates size overflow
        refine wp_bind (rolls.mono ?_ ?_)
        · rintro last final ⟨kept, log'', dirty, rfl, more, setback⟩
          exact undoes _ kept log'' dirty final setback more
        · rintro final ⟨log'', stable, more⟩
          exact fallen log'' final stable more
      · cases mode with
        | periodic =>
          refine wp_bind ((wp_pure _).mpr ((wp_pure _).mpr ?_))
          rw [updatedView]
          exact .added later log' true filter.lastLogSyncMs advance
        | always =>
          refine wp_bind (wp_bind ((wp_call _).mpr ⟨?_, fun answer => (wp_pure _).mpr ((wp_pure _).mpr ?_)⟩))
          · rw [updatedView]
            exact .updated later log' advance
          · rw [updatedView]
            exact .added later log' false answer.clock advance

end Staging

section Durable

variable {world : World} {roots : Config} {filter : Filter}

/-- The outcomes of `bloomd_ensure_filter_durable` for a filter whose log is open
if it has data: the first durable write pins the map, empties the log and sets both
flags. -/
inductive Durable (filter : Filter) (before : View) : Except Failure Unit → Filter → View → Prop where
  | already (data : filter.metadata.hasData = true) : Durable filter before (.ok ()) filter before
  | first (fresh : filter.metadata.hasData = false) (free : before.pin = none) (now : Nat) :
      Durable filter before (.ok ())
        { filter with
          logFd := some filter.metadata.logPath, logBuf := [], logDirty := false, lastLogSyncMs := now
          metadata := filter.metadata.withState true true }
        { before with
          file := some (some (filter.metadata.withState true true).toMetaRecord)
          log := some .empty, pin := some filter.mapFd }
  | failed (fresh : filter.metadata.hasData = false) (failure : Failure) (fd : Option Bytes)
      (closed : fd = none ∨ fd = filter.logFd) (buf : Bytes) (kept : buf = filter.logBuf ∨ buf = [])
      (dirty : Bool) (now : Nat) (log : Option LogFile) (pin : Option Nat) :
      Durable filter before (.error failure)
        { filter with logFd := fd, logBuf := buf, logDirty := dirty, lastLogSyncMs := now }
        { before with log, pin }

/-- What a crash in the first durable write may leave -/
inductive HalfDurable (filter : Filter) (before : View) : View → Prop where
  | pending (fresh : filter.metadata.hasData = false) (log : Option LogFile) (pin : Option Nat) :
      HalfDurable filter before { before with log, pin }
  | recorded (fresh : filter.metadata.hasData = false) :
      HalfDurable filter before { before with
        file := some (some (filter.metadata.withState true true).toMetaRecord)
        log := some .empty, pin := some filter.mapFd }

theorem wp_ensureFilterDurable (placed : Placed roots filter.metadata)
    (pinPath : filter.metadata.pinPath = roots.pinPathOf filter.name)
    (opened : filter.metadata.hasData = true → filter.logFd.isSome = true) :
    wp (ensureFilterDurable filter)
      (fun result after => Durable filter (world.view roots filter.name) result.1 result.2
        (after.view roots filter.name))
      (fun after => HalfDurable filter (world.view roots filter.name) (after.view roots filter.name))
      world := by
  unfold ensureFilterDurable
  split
  · rename_i data
    obtain ⟨path, fd⟩ := Option.isSome_iff_exists.mp (opened data)
    simp only [fd]
    exact (wp_pure _).mpr (.already data)
  · rename_i noData
    have fresh : filter.metadata.hasData = false := by simpa using noData
    set before := world.view roots filter.name with shown
    have halfway : ∀ (middle : World) log pin, middle.view roots filter.name = { before with log, pin } →
        HalfDurable filter before (middle.view roots filter.name) := by
      intro middle log pin seen
      rw [seen]
      exact .pending fresh log pin
    -- the pin goes away again after a failure behind it
    have unpins : ∀ failure buf dirty now (middle : World) log pin, buf = filter.logBuf ∨ buf = [] →
        middle.view roots filter.name = { before with log, pin } →
        wp (do
          let _ ← bpfUnpin filter.metadata.pinPath
          pure (Except.error failure,
            { filter with logFd := none, logBuf := buf, logDirty := dirty, lastLogSyncMs := now }))
          (fun result after => Durable filter before result.1 result.2 (after.view roots filter.name))
          (fun after => HalfDurable filter before (after.view roots filter.name)) middle := by
      intro failure buf dirty now middle log pin kept seen
      have drops : wp (bpfUnpin filter.metadata.pinPath)
          (fun _ after => ∃ pin, after.view roots filter.name = { before with log, pin })
          (fun after => ∃ pin, after.view roots filter.name = { before with log, pin }) middle := by
        refine wp_bpfUnpin ⟨pin, seen⟩ ⟨none, ?_⟩
        rw [pinPath, World.view_dropPin, seen]
      refine wp_bind (drops.mono ?_ ?_)
      · rintro _ after ⟨pin, seen⟩
        refine (wp_pure _).mpr ?_
        rw [seen]
        exact .failed fresh failure none (Or.inl rfl) buf kept dirty now log pin
      · rintro after ⟨pin, seen⟩
        exact halfway after log pin seen
    have pins : wp (bpfPinMap filter.mapFd filter.metadata.pinPath)
        (fun result after => match result with
          | .ok _ => before.pin = none ∧
              after.view roots filter.name = { before with pin := some filter.mapFd }
          | .error _ => after.view roots filter.name = before)
        (fun after => after.view roots filter.name = before) world := by
      refine wp_bind (wp_attempt rfl (fun _ _ => (wp_pure _).mpr rfl) ?_)
      rw [pinPath]
      cases taken : world.pinAt (roots.pinPathOf filter.name) with
      | some map => exact (wp_pure _).mpr rfl
      | none => exact (wp_pure _).mpr ⟨taken, World.view_setPin⟩
    refine wp_bind (pins.mono ?_ ?_)
    swap
    · intro after seen
      exact halfway after before.log before.pin seen
    · intro pinned middle held
      cases pinned with
      | error failure =>
        refine (wp_pure _).mpr ?_
        rw [held]
        exact .failed fresh failure filter.logFd (Or.inr rfl) filter.logBuf (Or.inl rfl) filter.logDirty
          filter.lastLogSyncMs before.log before.pin
      | ok done =>
        obtain ⟨free, seen⟩ := held
        refine wp_bind ((wp_openFilterLog placed true).mono ?_ ?_)
        swap
        · rintro after (same | emptied)
          · exact halfway after before.log _ (same.trans seen)
          · refine halfway after (some .empty) (some filter.mapFd) ?_
            rw [emptied, seen]
            rfl
        · rintro ⟨result, later⟩ after held
          cases result with
          | error failure =>
            obtain ⟨rfl, same⟩ := held
            exact unpins failure filter.logBuf filter.logDirty filter.lastLogSyncMs after before.log _
              (Or.inl rfl) (same.trans seen)
          | ok done =>
            obtain ⟨now, rfl, emptied⟩ := held
            rw [seen] at emptied
            have updates := @wp_updateFilterMetaState after roots
              { filter with
                logFd := some filter.metadata.logPath, logBuf := [], logDirty := false, lastLogSyncMs := now }
              placed true true
            refine wp_bind (updates.mono ?_ ?_)
            · rintro ⟨updated, last⟩ final held
              cases updated with
              | error failure =>
                obtain ⟨rfl, same⟩ := held
                have deletes : wp (logDelete filter.metadata.logPath)
                    (fun _ after => ∃ log, after.view roots filter.name =
                      { before with log, pin := some filter.mapFd })
                    (fun after => ∃ log, after.view roots filter.name =
                      { before with log, pin := some filter.mapFd }) final := by
                  refine wp_logDelete ⟨_, same.trans emptied⟩ ⟨none, ?_⟩
                  rw [placed.log, World.view_dropLog, same, emptied]
                refine wp_bind (deletes.mono ?_ ?_)
                · rintro _ last ⟨log, seen⟩
                  exact unpins failure [] false now last log _ (Or.inr rfl) seen
                · rintro last ⟨log, seen⟩
                  exact halfway last log _ seen
              | ok done =>
                obtain ⟨rfl, recorded⟩ := held
                refine (wp_pure _).mpr ?_
                rw [recorded, emptied]
                exact .first fresh free now
            · rintro final (same | recorded)
              · exact halfway final _ _ (same.trans emptied)
              · rw [recorded, emptied]
                exact .recorded fresh

/-- The outcomes of `bloomd_mark_filter_log_dirty` for a filter with data -/
inductive Marked (filter : Filter) (before : View) : Except Failure Bool → Filter → View → Prop where
  | unneeded (dirty : filter.metadata.logClean = false) : Marked filter before (.ok false) filter before
  | cleared (clean : filter.metadata.logClean = true) : Marked filter before (.ok true)
      { filter with metadata := filter.metadata.withState true false }
      { before with file := some (some (filter.metadata.withState true false).toMetaRecord) }
  | failed (failure : Failure) : Marked filter before (.error failure) filter before

theorem wp_markFilterLogDirty (placed : Placed roots filter.metadata)
    (data : filter.metadata.hasData = true) :
    wp (markFilterLogDirty filter)
      (fun result after => Marked filter (world.view roots filter.name) result.1 result.2
        (after.view roots filter.name))
      (fun after => after.view roots filter.name = world.view roots filter.name ∨
        after.view roots filter.name = { world.view roots filter.name with
          file := some (some (filter.metadata.withState true false).toMetaRecord) }) world := by
  unfold markFilterLogDirty
  split
  · rename_i unneeded
    exact (wp_pure _).mpr (.unneeded (by simpa [data] using unneeded))
  · rename_i needed
    have clean : filter.metadata.logClean = true := by simpa [data] using needed
    refine wp_bind ((wp_updateFilterMetaState placed true false).mono ?_ fun _ held => held)
    rintro ⟨updated, later⟩ after held
    cases updated with
    | error failure =>
      obtain ⟨rfl, same⟩ := held
      refine (wp_pure _).mpr ?_
      rw [same]
      exact .failed failure
    | ok done =>
      obtain ⟨rfl, recorded⟩ := held
      refine (wp_pure _).mpr ?_
      rw [recorded]
      exact .cleared clean

/-- The outcomes of one filter's turn in `bloomd_sync_dirty_logs` -/
inductive Synced (filter : Filter) (log : LogFile) (before : View) : Filter → View → Prop where
  | idle : Synced filter log before filter before
  | stopped (dirty : filter.logDirty = true) (written : Bytes) (now : Nat) :
      Synced filter log before { filter with lastLogSyncMs := now }
        { before with log := some (log.append written) }
  | unsynced (dirty : filter.logDirty = true) (now : Nat) :
      Synced filter log before { filter with logBuf := [], lastLogSyncMs := now }
        { before with log := some (log.append filter.logBuf) }
  | synced (dirty : filter.logDirty = true) (now : Nat) :
      Synced filter log before { filter with logBuf := [], lastLogSyncMs := now, logDirty := false }
        { before with log := some (log.append filter.logBuf).synced }
  | flagged (dirty : filter.logDirty = true) (complete : filter.logHistoryIncomplete = false) (now : Nat) :
      Synced filter log before
        { filter with
          logBuf := [], lastLogSyncMs := now, logDirty := false
          metadata := filter.metadata.withState true true }
        { before with
          log := some (log.append filter.logBuf).synced
          file := some (some (filter.metadata.withState true true).toMetaRecord) }

/-- What a crash in a sync may leave -/
inductive HalfSynced (filter : Filter) (log : LogFile) (before : View) : View → Prop where
  | flushing (written : Bytes) : HalfSynced filter log before
      { before with log := some (log.append written) }
  | synced : HalfSynced filter log before { before with log := some (log.append filter.logBuf).synced }
  | flagged (dirty : filter.logDirty = true) (complete : filter.logHistoryIncomplete = false) :
      HalfSynced filter log before { before with
        log := some (log.append filter.logBuf).synced
        file := some (some (filter.metadata.withState true true).toMetaRecord) }

theorem wp_syncFilterLog (placed : Placed roots filter.metadata)
    (opened : filter.logFd = some (roots.logPathOf filter.name))
    (present : (world.view roots filter.name).log = some log) (now : Nat) (force : Bool) :
    wp (syncFilterLog filter now force)
      (fun later after => Synced filter log (world.view roots filter.name) later
        (after.view roots filter.name))
      (fun after => HalfSynced filter log (world.view roots filter.name) (after.view roots filter.name))
      world := by
  unfold syncFilterLog
  split
  · exact (wp_pure _).mpr .idle
  · rename_i clean
    have dirty : filter.logDirty = true := by simpa using clean
    split
    · exact (wp_pure _).mpr .idle
    · have flushes := wp_logBufferFlush_sync present filter.logBuf
      rw [← opened] at flushes
      refine wp_bind (flushes.mono ?_ ?_)
      swap
      · rintro after ⟨written, _, moved⟩
        rw [moved.view]
        exact .flushing written
      · rintro ⟨flushed, buf⟩ after outcome
        rcases outcome with ⟨same, moved⟩ | ⟨errno, written, same, _, moved⟩ | ⟨errno, same, moved⟩
        · obtain ⟨rfl, rfl⟩ := Prod.mk.inj same
          simp only
          split
          · rename_i eligible
            have complete : filter.logHistoryIncomplete = false := by
              have parts : (filter.metadata.hasData = true ∧ filter.metadata.logClean = false) ∧
                  filter.logHistoryIncomplete = false := by simpa using eligible
              exact parts.2
            have updates := @wp_updateFilterMetaState after roots
              { filter with logBuf := [], lastLogSyncMs := now, logDirty := false } placed true true
            refine wp_bind (updates.mono ?_ ?_)
            · rintro ⟨updated, later⟩ final held
              cases updated with
              | error failure =>
                obtain ⟨rfl, kept⟩ := held
                refine (wp_pure _).mpr ?_
                rw [kept, moved.view]
                exact .synced dirty now
              | ok done =>
                obtain ⟨rfl, recorded⟩ := held
                refine (wp_pure _).mpr ?_
                rw [recorded, moved.view]
                exact .flagged dirty complete now
            · rintro final (kept | recorded)
              · rw [kept, moved.view]
                exact .synced
              · rw [recorded, moved.view]
                exact .flagged dirty complete
          · refine (wp_pure _).mpr ?_
            rw [moved.view]
            exact .synced dirty now
        · obtain ⟨rfl, rfl⟩ := Prod.mk.inj same
          refine (wp_pure _).mpr ?_
          rw [moved.view]
          exact .stopped dirty written now
        · obtain ⟨rfl, rfl⟩ := Prod.mk.inj same
          refine (wp_pure _).mpr ?_
          rw [moved.view]
          exact .unsynced dirty now

end Durable

end Bloomd
