import Bloomd.BatchSemantics
import Bloomd.ForcedSync

/-! What a failed ADD leaves of the logical log of its filter: the records of the log
file followed by those in the buffer. The handler is run with a note of the call that
failed. -/

namespace Bloomd

open CrashLogic Prog

/-- The digests that a filter owes to a rebuild -/
def Filter.logicalLog (filter : Filter) (world : World) : List Digest :=
  Framing.records digestSize (((world.logAt filter.metadata.logPath).map LogFile.data).getD []) ++
    Framing.records digestSize filter.logBuf

/-- The logical log of the filter of a name -/
def Daemon.logicalLog (daemon : Daemon) (world : World) (name : Bytes) : List Digest :=
  match daemon.set.items.find? fun filter => filter.name = name with
  | none => []
  | some filter => filter.logicalLog world

/-- The call that made an ADD fail: one that prepares the filter, the `lseek`, the write
of a full buffer, the write or `fsync` of the digest, or the update of the map. A note
says whether the failed write left the file as it was, and whether the truncation that
takes the digest back succeeded. -/
inductive FailedCall where
  | none
  | prepare
  | seek
  | spill (intact : Bool)
  | flush
  | update (undone : Bool)
  deriving DecidableEq, Repr

section Noted

/-- The log behind an open file -/
def World.logAtFd (fd : Option Bytes) (world : World) : Option LogFile := fd.bind world.logAt

/-- `stageDigestForAdd` with a note -/
def stageNoted (filter : Filter) (digest : Digest) (mode : LogSyncMode) :
    Sys (FailedCall × Except Errno LogStage × Filter) := do
  match ← stageFileSize filter mode with
  | .error errno => pure (.seek, .error errno, filter)
  | .ok prevFileSize => do
    let stage : LogStage :=
      ⟨filter.logBuf.length, prevFileSize, filter.logDirty, mode == .always,
        logBufferCap < filter.logBuf.length + digestSize⟩
    let before ← Prog.inspect (World.logAtFd filter.logFd)
    let (appended, buf) ← logBufferAppend filter.logFd filter.logBuf digest
    let after ← Prog.inspect (World.logAtFd filter.logFd)
    let filter := { filter with logBuf := buf }
    match appended, mode with
    | .error errno, _ => pure (.spill (before = after), .error errno, filter)
    | .ok (), .periodic => pure (.none, .ok stage, filter)
    | .ok (), .always => do
      let (flushed, buf) ← logBufferFlush filter.logFd filter.logBuf true
      let filter := { filter with logBuf := buf }
      match flushed with
      | .error errno => pure (.flush, .error errno, filter)
      | .ok () => pure (.none, .ok stage, filter)

/-- `rollbackStagedDigest` with a note -/
def rollbackNoted (filter : Filter) (stage : LogStage) : LogSyncMode → Sys (Bool × Filter)
  | .always => do
    if stage.canTruncate then
      let truncated ← logTruncate filter.logFd stage.prevFileSize true
      pure (truncated.isOk, { filter with logBuf := [], logDirty := false })
    else pure (true, { filter with logBuf := [], logDirty := false })
  | .periodic =>
    pure (true, { filter with
      logBuf := if stage.overflowFlush then [] else filter.logBuf.take stage.prevBufLen
      logDirty := stage.prevDirty })

/-- `addStaged` with a note -/
def addStagedNoted (filter : Filter) (digest : Digest) (mode : LogSyncMode) (undo : Bool) :
    Sys (FailedCall × Except Reply Unit × Filter) := do
  let (note, staged, filter) ← stageNoted filter digest mode
  match staged with
  | .error _ => do
    let filter ← undoMark filter undo
    pure (note, .error (.error .io .metadata (stageFailureMessage mode)), filter)
  | .ok stage =>
    match ← bpfAddDigest filter.mapFd digest with
    | .error failure => do
      let (undone, filter) ← rollbackNoted filter stage mode
      let filter ← undoMark filter undo
      pure (.update undone, .error (.error .bpf .none failure.message), filter)
    | .ok () => do
      let filter ← commitStagedDigest filter mode
      pure (.none, .ok (), filter)

/-- `addDigest` with a note -/
def addNoted (filter : Filter) (digest : Digest) (mode : LogSyncMode) : Sys (FailedCall × Reply × Filter) := do
  let (prepared, filter) ← prepareAdd filter mode
  match prepared with
  | .error reply => pure (.prepare, reply, filter)
  | .ok marked => do
    let (note, added, filter) ← addStagedNoted filter digest mode marked
    match added with
    | .error reply => pure (note, reply, filter)
    | .ok () => pure (note, .ok [1], { filter with addCalls := filter.addCalls + 1 })

/-- A look at the world that the rest of a program makes no use of -/
theorem inspect_bind_eq {α β : Type} {view : World → α} {next : α → Sys β} {program : Sys β}
    (same : ∀ seen, next seen = program) : Prog.inspect view >>= next = program := by
  funext world answers
  rw [bind_apply]
  exact congrFun (congrFun (same (view world)) world) answers

theorem snd_stageNoted (filter : Filter) (digest : Digest) (mode : LogSyncMode) :
    Prod.snd <$> stageNoted filter digest mode = stageDigestForAdd filter digest mode := by
  unfold stageNoted stageDigestForAdd
  rw [map_bind]
  apply bind_congr
  intro size
  cases size with
  | error errno => rfl
  | ok prevFileSize =>
    simp only [map_bind]
    apply inspect_bind_eq
    intro before
    apply bind_congr
    rintro ⟨appended, buf⟩
    apply inspect_bind_eq
    intro after
    cases appended with
    | error errno => rfl
    | ok done =>
      cases mode with
      | periodic => rfl
      | always =>
        simp only [map_bind]
        apply bind_congr
        rintro ⟨flushed, buf⟩
        cases flushed <;> rfl

theorem snd_rollbackNoted (filter : Filter) (stage : LogStage) (mode : LogSyncMode) :
    Prod.snd <$> rollbackNoted filter stage mode = rollbackStagedDigest filter stage mode := by
  cases mode with
  | periodic => rfl
  | always =>
    simp only [rollbackNoted, rollbackStagedDigest]
    split
    · simp only [map_bind, map_pure]
    · rfl

theorem snd_addStagedNoted (filter : Filter) (digest : Digest) (mode : LogSyncMode) (undo : Bool) :
    Prod.snd <$> addStagedNoted filter digest mode undo = addStaged filter digest mode undo := by
  unfold addStagedNoted addStaged
  simp only [← snd_stageNoted, map_bind, bind_map_left]
  apply bind_congr
  rintro ⟨note, staged, current⟩
  cases staged with
  | error errno => simp only [map_bind, map_pure]
  | ok stage =>
    simp only [map_bind]
    apply bind_congr
    intro updated
    cases updated with
    | error failure => simp only [← snd_rollbackNoted, map_bind, bind_map_left, map_pure]
    | ok done => simp only [map_bind, map_pure]

/-- The note changes nothing of what an ADD does. -/
theorem snd_addNoted (filter : Filter) (digest : Digest) (mode : LogSyncMode) :
    Prod.snd <$> addNoted filter digest mode = addDigest filter digest mode := by
  unfold addNoted addDigest
  rw [map_bind]
  apply bind_congr
  rintro ⟨prepared, current⟩
  cases prepared with
  | error reply => rfl
  | ok marked =>
    simp only [← snd_addStagedNoted, map_bind, bind_map_left]
    apply bind_congr
    rintro ⟨note, added, current⟩
    cases added <;> rfl

end Noted

section Outcomes

variable {roots : Config} {filter : Filter} {world : World} {path : Bytes} {log : LogFile} {mode : LogSyncMode}

/-- The bytes of the log and of the buffer after a failed ADD, by the call that failed -/
inductive Aftermath (mode : LogSyncMode) (data buf : Bytes) : FailedCall → Bytes → Bytes → Prop where
  | untouched (note : FailedCall) (early : note = .prepare ∨ note = .seek ∨ note = .spill true) :
      Aftermath mode data buf note data buf
  | torn (later rest : Bytes) : Aftermath mode data buf (.spill false) later rest
  | staged (later rest : Bytes)
      (more : data.length / digestSize + buf.length / digestSize <
        later.length / digestSize + rest.length / digestSize) : Aftermath mode data buf .flush later rest
  | shortened (periodic : mode = .periodic) (fits : ¬ logBufferCap < buf.length + digestSize) (undone : Bool) :
      Aftermath mode data buf (.update undone) data buf
  | drained (periodic : mode = .periodic) (full : logBufferCap < buf.length + digestSize) (undone : Bool) :
      Aftermath mode data buf (.update undone) (data ++ buf) []
  | cut (always : mode = .always) : Aftermath mode data buf (.update true) data []
  | uncut (later rest : Bytes) : Aftermath mode data buf (.update false) later rest

/-- When a failed ADD keeps the logical log. A digest whose write or `fsync` fails stays in
the buffer or in the file. The rollback of a failed map update empties the buffer in
`always` mode, and in `periodic` mode it leaves a full buffer in the file, which keeps its
records when they start at a record of the file. -/
def FailedCall.Keeps (mode : LogSyncMode) (data buf : Bytes) : FailedCall → Prop
  | .flush => False
  | .update _ =>
    match mode with
    | .always => buf = []
    | .periodic => logBufferCap < buf.length + digestSize →
        Framing.records digestSize (data ++ buf) =
          Framing.records digestSize data ++ Framing.records digestSize buf
  | _ => True

theorem Aftermath.kept_iff {data buf later rest : Bytes} {note : FailedCall}
    (aftermath : Aftermath mode data buf note later rest) (whole : buf.length % digestSize = 0)
    (intact : note ≠ .spill false) (undone : note ≠ .update false) :
    Framing.records digestSize later ++ Framing.records digestSize rest =
      Framing.records digestSize data ++ Framing.records digestSize buf ↔ note.Keeps mode data buf := by
  have nothing : Framing.records digestSize ([] : Bytes) = [] := Framing.records_short digestSize_pos
  cases aftermath with
  | untouched note early => rcases early with rfl | rfl | rfl <;> exact ⟨fun _ => trivial, fun _ => rfl⟩
  | torn => exact absurd rfl intact
  | uncut => exact absurd rfl undone
  | staged _ _ more =>
    constructor
    · intro same
      have lengths := congrArg List.length same
      simp only [List.length_append, Framing.length_records digestSize_pos] at lengths
      omega
    · exact False.elim
  | shortened periodic fits undone =>
    subst periodic
    exact ⟨fun _ full => absurd full fits, fun _ => rfl⟩
  | drained periodic full undone =>
    subst periodic
    rw [nothing, List.append_nil]
    exact ⟨fun same _ => same, fun held => held full⟩
  | cut always =>
    subst always
    rw [nothing]
    constructor
    · intro same
      have none := List.append_cancel_left same
      have size := congrArg List.length none
      rw [Framing.length_records digestSize_pos, List.length_nil] at size
      apply List.length_eq_zero_iff.mp
      have split := Nat.div_add_mod buf.length digestSize
      rw [← size, whole] at split
      exact split.symm
    · intro (empty : buf = [])
      rw [empty, nothing]

/-- A truncation that succeeded has cut the file. -/
theorem wp_logTruncate_result (present : world.logAt path = some log) (length : Nat) :
    wp (logTruncate (some path) length true)
      (fun result after => ∃ later, LogNow path later world after ∧
        (result.isOk = true → later = (log.truncate length).synced))
      (fun _ => True) world := by
  have here : LogNow path log world world := .here present
  apply wp_bind
  apply wp_attempt trivial
  · intro errno _
    exact (wp_pure _).mpr ⟨log, here, nofun⟩
  · have cut : LogNow path (log.truncate length) world (world.changeLog path (·.truncate length)) :=
      .change present (·.truncate length)
    apply wp_attempt trivial
    · intro errno _
      exact ⟨_, cut, nofun⟩
    · exact ⟨_, cut.trans (.change cut.now _), fun _ => rfl⟩

/-- What staging a digest leaves for the map update and the rollback -/
structure StagedFor (mode : LogSyncMode) (digest : Digest) (filter : Filter) (log : LogFile) (stage : LogStage)
    (buf : Bytes) (later : LogFile) : Prop where
  previous : stage.prevBufLen = filter.logBuf.length
  truncates : stage.canTruncate = (mode == .always)
  overflow : stage.overflowFlush = decide (logBufferCap < filter.logBuf.length + digestSize)
  size : mode = .always → stage.prevFileSize = log.data.length
  appended : mode = .always → ∃ chunk, later.data = log.data ++ chunk
  buffered : mode = .periodic → ¬ logBufferCap < filter.logBuf.length + digestSize →
    later = log ∧ buf = filter.logBuf ++ digest.val
  spilled : mode = .periodic → logBufferCap < filter.logBuf.length + digestSize →
    later.data = log.data ++ filter.logBuf

/-- A flush that fails leaves one record more than there were. -/
theorem wp_flush_staged (mode : LogSyncMode) {front rest : Bytes} {digest : Digest} {middle : World}
    (whole : filter.logBuf.length % digestSize = 0) (aligned : front.length % digestSize = 0)
    (split : front ++ rest = filter.logBuf ++ digest.val) (now : LogNow path (log.append front) world middle) :
    wp (logBufferFlush (some path) rest true)
      (fun result after => ∃ later, LogNow path later world after ∧
        match result.1 with
        | .error _ => Aftermath mode log.data filter.logBuf .flush later.data result.2
        | .ok () => ∃ chunk, later.data = log.data ++ chunk)
      (fun _ => True) middle := by
  have sixteen : digestSize = 16 := rfl
  have sizes : front.length + rest.length = filter.logBuf.length + 16 := by
    have lengths := congrArg List.length split
    rwa [List.length_append, List.length_append, digest.property] at lengths
  rw [sixteen] at whole aligned
  apply (wp_logBufferFlush_sync now.now rest).mono _ fun _ _ => trivial
  rintro ⟨result, buf⟩ after (⟨same, done⟩ | ⟨errno, written, same, -, done⟩ | ⟨errno, same, done⟩)
  · obtain ⟨rfl, rfl⟩ := Prod.mk.inj same
    refine ⟨_, now.trans done, front ++ rest, ?_⟩
    rw [LogFile.data_synced, LogFile.data_append, LogFile.data_append, List.append_assoc]
  · obtain ⟨rfl, rfl⟩ := Prod.mk.inj same
    refine ⟨_, now.trans done, .staged _ _ ?_⟩
    simp only [LogFile.data_append, List.length_append, sixteen]
    omega
  · obtain ⟨rfl, rfl⟩ := Prod.mk.inj same
    refine ⟨_, now.trans done, .staged _ _ ?_⟩
    simp only [LogFile.data_append, List.length_append, List.length_nil, sixteen]
    omega

theorem wp_stageNoted (opened : filter.logFd = some path) (present : world.logAt path = some log)
    (whole : filter.logBuf.length % digestSize = 0) (room : filter.logBuf.length ≤ logBufferCap) (digest : Digest)
    (mode : LogSyncMode) :
    wp (stageNoted filter digest mode)
      (fun result after => ∃ buf later, result.2.2 = { filter with logBuf := buf } ∧ LogNow path later world after ∧
        match result.2.1 with
        | .error _ => Aftermath mode log.data filter.logBuf result.1 later.data buf
        | .ok stage => StagedFor mode digest filter log stage buf later)
      (fun _ => True) world := by
  have here : LogNow path log world world := .here present
  have sizes : wp (stageFileSize filter mode)
      (fun result after => after = world ∧ (mode = .always → ∀ size, result = .ok size → size = log.data.length))
      (fun _ => True) world := by
    cases mode with
    | periodic => exact (wp_pure _).mpr ⟨rfl, nofun⟩
    | always =>
      simp only [stageFileSize, opened]
      apply wp_attempt trivial
      · exact fun errno _ => ⟨rfl, nofun⟩
      · refine ⟨rfl, fun _ size measured => ?_⟩
        cases measured
        rw [present]
        rfl
  apply wp_bind
  apply sizes.mono _ fun _ _ => trivial
  rintro measured middle ⟨rfl, exactSize⟩
  cases measured with
  | error errno => exact (wp_pure _).mpr ⟨_, log, rfl, here, .untouched _ (Or.inr (Or.inl rfl))⟩
  | ok prevFileSize =>
    have size := fun always => exactSize always prevFileSize rfl
    simp only
    apply wp_bind
    rw [wp_inspect]
    apply wp_bind
    rw [opened]
    apply (wp_logBufferAppend present filter.logBuf room digest).mono _ fun _ _ => trivial
    rintro ⟨appended, buf⟩ after outcome
    apply wp_bind
    rw [wp_inspect]
    rcases outcome with ⟨same, fits, now⟩ | ⟨same, full, now⟩ | ⟨errno, written, same, -, now⟩
    · obtain ⟨rfl, rfl⟩ := Prod.mk.inj same
      have calm : ¬ logBufferCap < filter.logBuf.length + digestSize := by omega
      cases mode with
      | periodic =>
        refine (wp_pure _).mpr ⟨_, log, rfl, now, ?_⟩
        exact ⟨rfl, rfl, rfl, nofun, nofun, fun _ _ => ⟨rfl, rfl⟩, fun _ full => absurd full calm⟩
      | always =>
        have fresh : LogNow path (log.append []) middle after := by rwa [LogFile.append_nil]
        apply wp_bind
        apply (wp_flush_staged .always whole rfl (List.nil_append _) fresh).mono _ fun _ _ => trivial
        rintro ⟨flushed, last⟩ final ⟨later, more, outcome⟩
        cases flushed with
        | error errno => exact (wp_pure _).mpr ⟨_, _, rfl, more, outcome⟩
        | ok done =>
          refine (wp_pure _).mpr ⟨_, _, rfl, more, ?_⟩
          exact ⟨rfl, rfl, rfl, size, fun _ => outcome, nofun, nofun⟩
    · obtain ⟨rfl, rfl⟩ := Prod.mk.inj same
      cases mode with
      | periodic =>
        refine (wp_pure _).mpr ⟨_, _, rfl, now, ?_⟩
        exact ⟨rfl, rfl, rfl, nofun, nofun, fun _ calm => absurd full calm, fun _ _ => LogFile.data_append _ _⟩
      | always =>
        apply wp_bind
        apply (wp_flush_staged .always whole whole rfl now).mono _ fun _ _ => trivial
        rintro ⟨flushed, last⟩ final ⟨later, more, outcome⟩
        cases flushed with
        | error errno => exact (wp_pure _).mpr ⟨_, _, rfl, more, outcome⟩
        | ok done =>
          refine (wp_pure _).mpr ⟨_, _, rfl, more, ?_⟩
          exact ⟨rfl, rfl, rfl, size, fun _ => outcome, nofun, nofun⟩
    · obtain ⟨rfl, rfl⟩ := Prod.mk.inj same
      refine (wp_pure _).mpr ⟨_, _, rfl, now, ?_⟩
      simp only [World.logAtFd, Option.bind_some, present, now.now]
      by_cases intact : log = log.append written
      · have same : (log.append written).data = log.data := by rw [← intact]
        rw [same]
        simp only [intact.symm, decide_true]
        exact .untouched _ (Or.inr (Or.inr rfl))
      · simp only [Option.some.injEq, intact, decide_false]
        exact .torn _ _

theorem wp_rollbackNoted {middle : World} {stage : LogStage} {digest : Digest} {buf : Bytes} {later : LogFile}
    (opened : filter.logFd = some path) (now : LogNow path later world middle)
    (staged : StagedFor mode digest filter log stage buf later) :
    wp (rollbackNoted { filter with logBuf := buf } stage mode)
      (fun result after => ∃ last final dirty, result.2 = { filter with logBuf := last, logDirty := dirty } ∧
        LogNow path final world after ∧
        Aftermath mode log.data filter.logBuf (.update result.1) final.data last)
      (fun _ => True) middle := by
  obtain ⟨previous, truncates, overflow, size, appended, buffered, spilled⟩ := staged
  cases mode with
  | periodic =>
    refine (wp_pure _).mpr ⟨_, later, _, rfl, now, ?_⟩
    by_cases full : logBufferCap < filter.logBuf.length + digestSize
    · simp only [overflow, full, decide_true, ↓reduceIte, spilled rfl full]
      exact .drained rfl full true
    · obtain ⟨rfl, rfl⟩ := buffered rfl full
      simp only [overflow, full, decide_false, Bool.false_eq_true, ↓reduceIte, previous, List.take_left]
      exact .shortened rfl full true
  | always =>
    have cuts : stage.canTruncate = true := truncates
    simp only [rollbackNoted, cuts, ↓reduceIte, opened, size rfl]
    apply wp_bind
    apply (wp_logTruncate_result now.now _).mono _ fun _ _ => trivial
    rintro truncated after ⟨final, done, cut⟩
    refine (wp_pure _).mpr ⟨[], final, false, rfl, now.trans done, ?_⟩
    cases undone : truncated.isOk with
    | false => exact .uncut _ _
    | true =>
      obtain ⟨chunk, split⟩ := appended rfl
      have whole : (later.truncate log.data.length).data = log.data := by
        rw [LogFile.data_truncate _ (by rw [split, List.length_append]; omega), split, List.take_left]
      rw [cut undone, LogFile.data_synced, whole]
      exact .cut rfl

theorem wp_prepareAdd_left (placed : Placed roots filter.metadata) (hasData : filter.metadata.hasData = true)
    (opened : filter.logFd = some path) (mode : LogSyncMode) :
    wp (prepareAdd filter mode)
      (fun result after => (∃ logClean,
        result.2 = { filter with metadata := filter.metadata.withState true logClean }) ∧
        (after.view roots filter.name).log = (world.view roots filter.name).log)
      (fun _ => True) world := by
  have same : filter.metadata.withState true filter.metadata.logClean = filter.metadata := by
    rw [FilterMeta.withState, ← hasData]
  have unchanged : ∃ logClean, filter = { filter with metadata := filter.metadata.withState true logClean } :=
    ⟨filter.metadata.logClean, by rw [same]⟩
  have durable : ensureFilterDurable filter = pure (.ok (), filter) := by
    simp only [ensureFilterDurable, hasData, ↓reduceIte, opened]
  rw [prepareAdd, durable, pure_bind]
  cases mode with
  | always => exact (wp_pure _).mpr ⟨unchanged, rfl⟩
  | periodic =>
    apply wp_bind
    unfold markFilterLogDirty
    split
    · exact (wp_pure _).mpr ((wp_pure _).mpr ⟨unchanged, rfl⟩)
    · apply wp_bind
      apply (wp_updateFilterMetaState placed true false).mono _ fun _ _ => trivial
      rintro ⟨updated, current⟩ after held
      cases updated with
      | error failure =>
        obtain ⟨rfl, seen⟩ := held
        exact (wp_pure _).mpr ((wp_pure _).mpr ⟨unchanged, by rw [seen]⟩)
      | ok done =>
        obtain ⟨rfl, seen⟩ := held
        exact (wp_pure _).mpr ((wp_pure _).mpr ⟨⟨false, rfl⟩, by rw [seen]⟩)

theorem wp_undoMark_left (placed : Placed roots filter.metadata) (undo : Bool) :
    wp (undoMark filter undo)
      (fun later after => later.metadata.logPath = filter.metadata.logPath ∧ later.name = filter.name ∧
        later.logBuf = filter.logBuf ∧ (after.view roots filter.name).log = (world.view roots filter.name).log)
      (fun _ => True) world := by
  apply (wp_undoMark placed undo).mono _ fun _ _ => trivial
  rintro later after (⟨rfl, seen⟩ | ⟨-, rfl, seen⟩)
  · exact ⟨rfl, rfl, rfl, by rw [seen]⟩
  · exact ⟨rfl, rfl, rfl, by rw [seen]⟩

theorem wp_addStagedNoted (placed : Placed roots filter.metadata)
    (opened : filter.logFd = some (roots.logPathOf filter.name))
    (present : world.logAt (roots.logPathOf filter.name) = some log)
    (whole : filter.logBuf.length % digestSize = 0) (room : filter.logBuf.length ≤ logBufferCap) (digest : Digest)
    (mode : LogSyncMode) (undo : Bool) :
    wp (addStagedNoted filter digest mode undo)
      (fun result after => result.2.2.name = filter.name ∧ result.2.2.metadata.logPath = filter.metadata.logPath ∧
        (result.2.1 ≠ .ok () → ∃ later, after.logAt (roots.logPathOf filter.name) = some later ∧
          Aftermath mode log.data filter.logBuf result.1 later.data result.2.2.logBuf))
      (fun _ => True) world := by
  apply wp_bind
  apply (wp_stageNoted opened present whole room digest mode).mono _ fun _ _ => trivial
  rintro ⟨note, staged, current⟩ after ⟨buf, later, same, now, outcome⟩
  obtain rfl : current = { filter with logBuf := buf } := same
  cases staged with
  | error errno =>
    apply wp_bind
    apply (@wp_undoMark_left roots { filter with logBuf := buf } after placed undo).mono _ fun _ _ => trivial
    rintro last final ⟨logPath, named, kept, view⟩
    refine (wp_pure _).mpr ⟨named, logPath, fun _ => ⟨later, view.trans now.now, ?_⟩⟩
    rw [kept]
    exact outcome
  | ok stage =>
    apply wp_bind
    apply wp_bpfAddDigest trivial
    · intro failure
      apply wp_bind
      apply (wp_rollbackNoted opened now outcome).mono _ fun _ _ => trivial
      rintro ⟨undone, current⟩ rolled ⟨last, cut, dirty, same, back, aftermath⟩
      obtain rfl : current = { filter with logBuf := last, logDirty := dirty } := same
      apply wp_bind
      apply (@wp_undoMark_left roots { filter with logBuf := last, logDirty := dirty } rolled placed undo).mono _
        fun _ _ => trivial
      rintro final ended ⟨logPath, named, kept, view⟩
      refine (wp_pure _).mpr ⟨named, logPath, fun _ => ⟨cut, view.trans back.now, ?_⟩⟩
      rw [kept]
      exact aftermath
    · apply wp_bind
      cases mode with
      | periodic => exact (wp_pure _).mpr ((wp_pure _).mpr ⟨rfl, rfl, fun failed => absurd rfl failed⟩)
      | always =>
        apply wp_bind
        apply (wp_trivial _).mono _ fun _ _ => trivial
        intro now last _
        exact (wp_pure _).mpr ((wp_pure _).mpr ⟨rfl, rfl, fun failed => absurd rfl failed⟩)

/-- An ADD that failed leaves the log and the buffer as the call that failed has it. -/
theorem wp_addNoted (placed : Placed roots filter.metadata) (hasData : filter.metadata.hasData = true)
    (opened : filter.logFd = some (roots.logPathOf filter.name))
    (present : world.logAt (roots.logPathOf filter.name) = some log)
    (whole : filter.logBuf.length % digestSize = 0) (room : filter.logBuf.length ≤ logBufferCap) (digest : Digest)
    (mode : LogSyncMode) :
    wp (addNoted filter digest mode)
      (fun result after => result.2.2.name = filter.name ∧ result.2.2.metadata.logPath = filter.metadata.logPath ∧
        (result.2.1.status ≠ .ok → ∃ later, after.logAt (roots.logPathOf filter.name) = some later ∧
          Aftermath mode log.data filter.logBuf result.1 later.data result.2.2.logBuf))
      (fun _ => True) world := by
  apply wp_bind
  apply (wp_prepareAdd_left placed hasData opened mode).mono _ fun _ _ => trivial
  rintro ⟨prepared, current⟩ middle ⟨⟨logClean, changed⟩, seen⟩
  have same : current = { filter with metadata := filter.metadata.withState true logClean } := changed
  have there : middle.logAt (roots.logPathOf filter.name) = some log := seen.trans present
  have named : current.name = filter.name := by rw [same]; rfl
  have logPath : current.metadata.logPath = filter.metadata.logPath := by rw [same]; rfl
  have buffer : current.logBuf = filter.logBuf := by rw [same]
  have fd : current.logFd = some (roots.logPathOf current.name) := by rw [named, same, opened]
  have still : Placed roots current.metadata := by
    rw [same]
    exact placed.withState true logClean
  cases prepared with
  | error reply =>
    refine (wp_pure _).mpr ⟨named, logPath, fun _ => ⟨log, there, ?_⟩⟩
    rw [buffer]
    exact .untouched _ (Or.inl rfl)
  | ok marked =>
    apply wp_bind
    rw [← named] at there
    apply (wp_addStagedNoted still fd there (buffer ▸ whole) (buffer ▸ room) digest mode marked).mono _
      fun _ _ => trivial
    rintro ⟨note, added, last⟩ after ⟨sameName, samePath, failure⟩
    rw [named, buffer] at failure
    cases added with
    | error reply =>
      exact (wp_pure _).mpr ⟨sameName.trans named, samePath.trans logPath, fun _ => failure nofun⟩
    | ok done =>
      exact (wp_pure _).mpr ⟨sameName.trans named, samePath.trans logPath, fun failed => absurd rfl failed⟩

end Outcomes

/-- The ADD of `handle` with a note -/
def handleAddNoted (daemon : Daemon) (name payload : Bytes) : Sys (FailedCall × Reply × Daemon) :=
  if !nameIsValid name then pure (.none, .error .badRequest .parse "malformed body", daemon)
  else
    let (found, set) := daemon.set.findN name
    let daemon := { daemon with set }
    match found with
    | none => pure (.none, .error .notFound .none "filter not found", daemon)
    | some index =>
      match set.items[index]? with
      | none => pure (.none, .error .notFound .none "filter not found", daemon)
      | some filter => do
        let (note, reply, filter) ← addNoted filter (digestPayload payload) daemon.config.logSyncMode
        pure (note, reply, { daemon with set := { set with items := set.items.set index filter } })

theorem snd_handleAddNoted [Libm] (daemon : Daemon) (name payload : Bytes) :
    Prod.snd <$> handleAddNoted daemon name payload = handle daemon (.add name payload) := by
  simp only [handle, handleAddCheck, handleAddNoted, withFilter]
  by_cases invalid : (!nameIsValid name) = true
  · rw [if_pos invalid, if_pos invalid]
    rfl
  · rw [if_neg invalid, if_neg invalid]
    cases (daemon.set.findN name).1 with
    | none => rfl
    | some index =>
      simp only
      cases (daemon.set.findN name).2.items[index]? with
      | none => rfl
      | some filter => simp only [↓reduceIte, ← snd_addNoted, map_bind, bind_map_left, map_pure]

theorem logicalLog_of_mem {daemon : Daemon} {filter : Filter} (unique : (daemon.set.items.map Filter.name).Nodup)
    (member : filter ∈ daemon.set.items) (world : World) :
    daemon.logicalLog world filter.name = filter.logicalLog world := by
  have found : daemon.set.items.find? (fun other => other.name = filter.name) = some filter := by
    cases search : daemon.set.items.find? fun other => other.name = filter.name with
    | none => exact absurd (List.find?_eq_none.mp search filter member) (by simp)
    | some other =>
      have named : other.name = filter.name := by simpa using List.find?_some search
      rw [List.inj_on_of_nodup_map unique (List.mem_of_find?_eq_some search) member named]
  rw [Daemon.logicalLog, found]

/-- A lookup of the name of a filter in the set finds that filter. -/
theorem findN_member {set : FilterSet} {filter : Filter} (unique : (set.items.map Filter.name).Nodup)
    (named : ∀ filter ∈ set.items, nameIsValid filter.name = true) (member : filter ∈ set.items) :
    ∃ index, (set.findN filter.name).1 = some index ∧ set.items[index]? = some filter := by
  have valid := named filter member
  obtain ⟨index, found⟩ := Option.isSome_iff_exists.mp (FilterSet.findN_isSome named valid member rfl)
  obtain ⟨other, there, same⟩ := FilterSet.findN_name named valid found
  have equal := List.inj_on_of_nodup_map unique (List.mem_of_getElem? there) member same
  exact ⟨index, found, equal ▸ there⟩

/-- In every state that a run from empty roots reaches, an ADD that fails keeps the logical
log of its filter if and only if the call that failed lets it. -/
theorem failedAdd_keeps_log_iff [Libm] {roots : Config} {actions : List Action} {daemon : Daemon} {filter : Filter}
    (rooted : ∀ action ∈ actions, action.KeepsRoots roots)
    (running : (State.initial.run actions).daemon = some daemon) (member : filter ∈ daemon.set.items)
    (durable : filter.metadata.hasData = true) (payload : Bytes) :
    Prod.snd <$> handleAddNoted daemon filter.name payload = handle daemon (.add filter.name payload) ∧
    ∀ answers note reply later after rest,
      handleAddNoted daemon filter.name payload (State.initial.run actions).world answers =
        .returned (note, reply, later) after rest →
      reply.status ≠ .ok → note ≠ .spill false → note ≠ .update false →
        (later.logicalLog after filter.name = daemon.logicalLog (State.initial.run actions).world filter.name ↔
          note.Keeps daemon.config.logSyncMode
            ((((State.initial.run actions).world.logAt filter.metadata.logPath).map LogFile.data).getD [])
            filter.logBuf) := by
  refine ⟨snd_handleAddNoted daemon filter.name payload, ?_⟩
  intro answers note reply later after rest run failed intact undone
  have serving := serving_of_run rooted running
  have serves := (serving.tended.live filter member).serves
  have settled := serving.tended.settled filter member
  obtain ⟨log, present⟩ := serves.logged durable
  have there : (State.initial.run actions).world.logAt filter.metadata.logPath = some log := by
    rw [serves.placed.log]
    exact present
  obtain ⟨index, found, here⟩ := findN_member serving.tended.unique
    (fun other inside => (serving.tended.live other inside).serves.placed.valid) member
  have spec : wp (handleAddNoted daemon filter.name payload)
      (fun result after => result.2.1.status ≠ .ok → ∃ last final, last ∈ result.2.2.set.items ∧
        (result.2.2.set.items.map Filter.name).Nodup ∧ last.name = filter.name ∧
        after.logAt last.metadata.logPath = some final ∧
        Aftermath daemon.config.logSyncMode log.data filter.logBuf result.1 final.data last.logBuf)
      (fun _ => True) (State.initial.run actions).world := by
    have valid : ¬ (!nameIsValid filter.name) = true := by simp [serves.placed.valid]
    simp only [handleAddNoted, valid, Bool.false_eq_true, ↓reduceIte, found, FilterSet.findN_items, here]
    apply wp_bind
    apply (wp_addNoted serves.placed durable (serves.opened durable) present serves.whole serves.room
      (digestPayload payload) daemon.config.logSyncMode).mono _ fun _ _ => trivial
    rintro ⟨note, reply, last⟩ after ⟨named, logPath, failure⟩
    refine (wp_pure _).mpr fun failed => ?_
    obtain ⟨final, ended, aftermath⟩ := failure failed
    obtain ⟨bound, -⟩ := List.getElem?_eq_some_iff.mp here
    refine ⟨last, final, List.mem_set bound _, ?_, named, ?_, aftermath⟩
    · rw [map_set_same Filter.name here named]
      exact serving.tended.unique
    · rw [logPath, serves.placed.log]
      exact ended
  obtain ⟨last, final, inside, unique, named, ended, aftermath⟩ := spec.returned run failed
  have before := logicalLog_of_mem serving.tended.unique member (State.initial.run actions).world
  have afterwards := logicalLog_of_mem unique inside after
  rw [named] at afterwards
  rw [before, afterwards, Filter.logicalLog, Filter.logicalLog, there, ended]
  exact aftermath.kept_iff serves.whole intact undone

/-- A filter with one digest in its log, in `always` mode -/
def loggedRun : List Action :=
  [.restart .plain demoRoots 7 plenty, .request demoCreate plenty, .request (.add demoName (bytes "a")) plenty]

theorem loggedRun_rooted : ∀ action ∈ loggedRun, action.KeepsRoots demoRoots := by
  intro action member
  simp only [loggedRun, List.mem_cons, List.not_mem_nil, or_false] at member
  rcases member with rfl | rfl | rfl
  · rfl
  · trivial
  · trivial

theorem loggedRun_daemon : ∃ daemon filter, (@State.run exactLibm .initial loggedRun).daemon = some daemon ∧
    filter ∈ daemon.set.items ∧ filter.name = demoName ∧ filter.metadata.hasData = true ∧ filter.logBuf = [] ∧
    daemon.config.logSyncMode = .always := by
  have served : (@State.run exactLibm .initial loggedRun).daemon.map (fun daemon =>
      (daemon.config.logSyncMode, daemon.set.items.map fun filter =>
        (filter.name, filter.metadata.hasData, filter.logBuf))) =
      some (.always, [(demoName, true, [])]) := by decide +kernel
  obtain ⟨daemon, running, shape⟩ := Option.map_eq_some_iff.mp served
  obtain ⟨mode, items⟩ := Prod.mk.inj shape
  obtain ⟨filter, single, fields⟩ := List.map_eq_singleton_iff.mp items
  simp only [Prod.mk.injEq] at fields
  exact ⟨daemon, filter, running, by rw [single]; exact List.mem_singleton_self _, fields.1, fields.2.1,
    fields.2.2, mode⟩

/-- What an ADD after `loggedRun` comes to: the call that failed, the status, and the
numbers of records in the logical log before and after -/
def addAfterwards (answers : List Answer) : Option (FailedCall × Status × Nat × Nat) :=
  (@State.run exactLibm .initial loggedRun).daemon.bind fun daemon =>
    match handleAddNoted daemon demoName (bytes "b") (@State.run exactLibm .initial loggedRun).world answers with
    | .crashed _ => none
    | .returned (note, reply, later) after _ => some (note, reply.status,
        (daemon.logicalLog (@State.run exactLibm .initial loggedRun).world demoName).length,
        (later.logicalLog after demoName).length)

theorem addAfterwards_some {daemon : Daemon} {answers : List Answer} {note : FailedCall} {status : Status}
    {first second : Nat} (running : (@State.run exactLibm .initial loggedRun).daemon = some daemon)
    (added : addAfterwards answers = some (note, status, first, second)) : ∃ reply later after rest,
      handleAddNoted daemon demoName (bytes "b") (@State.run exactLibm .initial loggedRun).world answers =
        .returned (note, reply, later) after rest ∧ reply.status = status ∧
      (daemon.logicalLog (@State.run exactLibm .initial loggedRun).world demoName).length = first ∧
      (later.logicalLog after demoName).length = second := by
  rw [addAfterwards, running, Option.bind_some] at added
  split at added
  · cases added
  · rename_i call reply later after rest run
    simp only [Option.some.injEq, Prod.mk.injEq] at added
    obtain ⟨rfl, status, first, second⟩ := added
    exact ⟨reply, later, after, rest, run, status, first, second⟩

/-- The `fsync` of a digest fails in `always` mode: the ADD is refused, and the digest
stays in the log. -/
theorem failedAdd_fsync_keeps_digest : ∃ daemon filter reply later after rest,
    (@State.run exactLibm .initial loggedRun).daemon = some daemon ∧
    filter ∈ daemon.set.items ∧ filter.name = demoName ∧ filter.metadata.hasData = true ∧
    handleAddNoted daemon demoName (bytes "b") (@State.run exactLibm .initial loggedRun).world
      [.ok, .ok, .fail .eio] = .returned (.flush, reply, later) after rest ∧ reply.status = .io ∧
    later.logicalLog after demoName ≠ daemon.logicalLog (@State.run exactLibm .initial loggedRun).world demoName := by
  obtain ⟨daemon, filter, running, member, named, durable, -, -⟩ := loggedRun_daemon
  have added : addAfterwards [.ok, .ok, .fail .eio] = some (.flush, .io, 1, 2) := by decide +kernel
  obtain ⟨reply, later, after, rest, run, status, first, second⟩ := addAfterwards_some running added
  refine ⟨daemon, filter, reply, later, after, rest, running, member, named, durable, run, status, fun same => ?_⟩
  rw [same, first] at second
  cases second

/-- The map update fails in `always` mode with nothing in the buffer, and the truncation
takes the digest back. -/
theorem failedAdd_keeps_log_truncated : ∃ daemon reply later after rest,
    handleAddNoted daemon demoName (bytes "b") (@State.run exactLibm .initial loggedRun).world
      [.ok, .ok, .ok, .fail .enomem, .ok, .ok] = .returned (.update true, reply, later) after rest ∧
      reply.status = .bpf ∧
    later.logicalLog after demoName = daemon.logicalLog (@State.run exactLibm .initial loggedRun).world demoName := by
  obtain ⟨daemon, filter, running, member, named, durable, empty, mode⟩ := loggedRun_daemon
  have added : addAfterwards [.ok, .ok, .ok, .fail .enomem, .ok, .ok] = some (.update true, .bpf, 1, 1) := by
    decide +kernel
  obtain ⟨reply, later, after, rest, run, status, -, -⟩ := addAfterwards_some running added
  obtain ⟨-, keeps⟩ :=
    @failedAdd_keeps_log_iff exactLibm demoRoots loggedRun daemon filter loggedRun_rooted running member
    durable (bytes "b")
  rw [named, mode] at keeps
  exact ⟨daemon, reply, later, after, rest, run, status,
    (keeps _ _ _ _ _ _ run (by rw [status]; decide) (by decide) (by decide)).mpr empty⟩

end Bloomd
