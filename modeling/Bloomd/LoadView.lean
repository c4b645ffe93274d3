import Bloomd.FilterView
import Bloomd.StartupInvariant

/-! What the loader does to the view of the filter whose record it has read: it
takes the pinned map, makes an empty one, or rebuilds the map from the log. -/

namespace Bloomd

open CrashLogic Prog

/-- The three paths of a filter fit into a `PATH_MAX` buffer. -/
structure Fits (config : Config) (name : Bytes) : Prop where
  file : (config.metaPathOf name).length < pathMax
  log : (config.logPathOf name).length < pathMax
  pin : (config.pinPathOf name).length < pathMax

theorem assignFilterPaths_eq {config : Config} {record : FilterMeta} (fits : Fits config record.name) :
    assignFilterPaths config record = .ok { record with
      metaPath := config.metaPathOf record.name
      logPath := config.logPathOf record.name
      pinPath := config.pinPathOf record.name } := by
  have built : ∀ root suffix, (joined root record.name suffix).length < pathMax →
      joinPath root record.name suffix = .ok (joined root record.name suffix) :=
    fun _ _ short => if_neg (Nat.not_le.mpr short)
  have file : buildMetaPath config.metaRoot record.name = .ok (config.metaPathOf record.name) :=
    built _ _ fits.file
  have log : buildLogPath config.metaRoot record.name = .ok (config.logPathOf record.name) :=
    built _ _ fits.log
  have pin : buildPinPath config.pinRoot record.name = .ok (config.pinPathOf record.name) :=
    built _ _ fits.pin
  simp only [assignFilterPaths, file, log, pin, bind, Except.bind, pure, Except.pure]

/-- The log after a replay: a torn record at its end may have been cut off. -/
def Trimmed (log later : LogFile) : Prop :=
  later = log ∨
    later = log.truncate ((Framing.records digestSize log.data).length * digestSize)

theorem Trimmed.refl (log : LogFile) : Trimmed log log := Or.inl rfl

/-- The cut takes no record from the file, and none from its durable part. -/
theorem Trimmed.records (trimmed : Trimmed log later) :
    Framing.records digestSize later.data = Framing.records digestSize log.data ∧
      Framing.records digestSize later.stable = Framing.records digestSize log.stable := by
  rcases trimmed with rfl | rfl
  · exact ⟨rfl, rfl⟩
  · have count := Framing.length_records digestSize_pos log.data
    have behind : digestSize * (log.data.length / digestSize) ≤
        (Framing.records digestSize log.data).length * digestSize := by
      rw [count, Nat.mul_comm]
    have inside : (Framing.records digestSize log.data).length * digestSize ≤ log.data.length := by
      rw [count]
      exact Nat.div_mul_le_self _ _
    constructor
    · rw [LogFile.data_truncate log inside, Framing.records_take digestSize_pos _ _ behind]
    · refine Framing.records_take digestSize_pos _ _ (Nat.le_trans ?_ behind)
      refine Nat.mul_le_mul_left _ (Nat.div_le_div_right ?_)
      simp [LogFile.data]

theorem modify_appended (maps : List KernelMap) (kernel : KernelMap) (change : KernelMap → KernelMap) :
    (maps ++ [kernel]).modify maps.length change = maps ++ [change kernel] := by
  induction maps with
  | nil => rfl
  | cons head tail ih => simp [ih]

section

variable {world : World} {config : Config} {record : FilterMeta} {log : LogFile}

/-- The outcomes of `bloomd_rebuild_from_log` for a record that is in its place, with
its log on disk and no pin -/
inductive Rebuilt (record : FilterMeta) (log : LogFile) (before : View) :
    Except Failure (FilterMeta × Nat) → View → Prop where
  | rebuilt (log' : LogFile) (trimmed : Trimmed log log') :
      Rebuilt record log before (.ok (record, before.maps.length))
        { before with
          log := some log', pin := some before.maps.length
          maps := before.maps ++ [⟨createdMapInfo record.capacity record.hashes,
            Framing.records digestSize log.data⟩] }
  | failed (failure : Failure) (other : failure.errno ≠ .enoent) (log' : LogFile)
      (trimmed : Trimmed log log') (maps : List KernelMap) :
      Rebuilt record log before (.error failure)
        { before with log := some log', maps := before.maps ++ maps }

/-- What a crash in a rebuild may leave -/
inductive HalfRebuilt (record : FilterMeta) (log : LogFile) (before : View) : View → Prop where
  | replaying (log' : LogFile) (trimmed : Trimmed log log') (maps : List KernelMap) :
      HalfRebuilt record log before { before with log := some log', maps := before.maps ++ maps }

theorem replayDigest_transient {map : Nat} {digest : Digest} {context : Except Failure Unit}
    {post : Bool × Except Failure Unit → World → Prop} {crash : World → Prop} (before : crash world)
    (failed : ∀ errno, Transient errno →
      post (false, .error (failedCall "BPF_MAP_UPDATE_ELEM failed" errno)) world)
    (done : post (true, .ok ()) (world.addDigest map digest)) :
    wp (replayDigest map digest context) post crash world := by
  refine wp_bind (wp_bind (wp_attempt before ?_ ?_))
  · intro errno transient
    exact (wp_pure _).mpr ((wp_pure _).mpr (failed errno transient))
  · exact (wp_pure _).mpr ((wp_pure _).mpr done)

/-- A log that does not replay is reported as missing only if it is. -/
@[simp] theorem replayFailure_errno (name : Bytes) (errno : Errno) :
    (replayFailure name errno (.ok ())).errno = errno := by
  unfold replayFailure
  simp only
  split
  · rfl
  · split <;> rfl

/-- The worlds after a rebuild has read the log to its end -/
inductive Replayed (path : Bytes) (log : LogFile) (info : MapInfo) (begun : World) : World → Prop where
  | whole : Replayed path log info begun (begun.addMap ⟨info, Framing.records digestSize log.data⟩)
  | cut : Replayed path log info begun ((begun.addMap ⟨info, Framing.records digestSize log.data⟩).changeLog path
      (·.truncate ((Framing.records digestSize log.data).length * digestSize)))

/-- The worlds of a rebuild before it pins its map -/
inductive Rebuilding (path : Bytes) (log : LogFile) (info : MapInfo) (begun : World) : World → Prop where
  | untouched : Rebuilding path log info begun begun
  | replaying (seen : List Digest) : Rebuilding path log info begun (begun.addMap ⟨info, seen⟩)
  | replayed (after : World) (replayed : Replayed path log info begun after) : Rebuilding path log info begun after

/-- The outcomes of `bloomd_rebuild_from_log` for a record whose log is on disk -/
inductive RebuiltFrom (config : Config) (record : FilterMeta) (log : LogFile) (begun : World) :
    Except Failure (FilterMeta × Nat) → World → Prop where
  | failed (failure : Failure) (other : failure.errno ≠ .enoent) (after : World)
      (rebuilding : Rebuilding (config.logPathOf record.name) log (createdMapInfo record.capacity record.hashes) begun
        after) : RebuiltFrom config record log begun (.error failure) after
  | rebuilt (fits : Fits config record.name) (small : record.capacity < 2 ^ 32)
      (free : begun.pinAt (config.pinPathOf record.name) = none) (after : World)
      (replayed : Replayed (config.logPathOf record.name) log
        (createdMapInfo record.capacity record.hashes) begun after) :
      RebuiltFrom config record log begun (.ok ({ record with
        metaPath := config.metaPathOf record.name
        logPath := config.logPathOf record.name
        pinPath := config.pinPathOf record.name }, begun.maps.length))
        (after.setPin (config.pinPathOf record.name) begun.maps.length)

theorem Replayed.pins {path : Bytes} {info : MapInfo} {after : World} (replayed : Replayed path log info world after) :
    after.pins = world.pins := by
  cases replayed with
  | whole => rfl
  | cut => rw [World.changeLog_pins, World.addMap_pins]

theorem wp_rebuildFromLog (present : world.logAt (config.logPathOf record.name) = some log) :
    wp (rebuildFromLog config record) (RebuiltFrom config record log world)
      (Rebuilding (config.logPathOf record.name) log (createdMapInfo record.capacity record.hashes) world) world := by
  let info := createdMapInfo record.capacity record.hashes
  unfold rebuildFromLog
  cases assigned : assignFilterPaths config record with
  | error errno =>
    obtain rfl := assignFilterPaths_error assigned
    exact (wp_pure _).mpr (.failed _ Errno.noConfusion _ .untouched)
  | ok placed =>
    obtain ⟨fitsFile, fitsLog, fitsPin, rfl⟩ := assignFilterPaths_ok assigned
    refine wp_bind ((wp_bpfCreateMap record.capacity record.hashes world).mono ?_ fun after same => same ▸ .untouched)
    intro created middle creates
    cases creates with
    | refused failure other => exact (wp_pure _).mpr (.failed failure other _ .untouched)
    | made small =>
      have replays : wp (logReplay (config.logPathOf record.name) (replayDigest world.maps.length) (.ok ()))
          (fun result after => Rebuilding (config.logPathOf record.name) log info world after ∧
            (∀ errno, result.1 = .error errno → (replayFailure record.name errno result.2).errno ≠ .enoent) ∧
            ∀ count, result.1 = .ok count → Replayed (config.logPathOf record.name) log info world after)
          (Rebuilding (config.logPathOf record.name) log info world) (world.addMap ⟨info, []⟩) := by
        refine wp_logReplay log (fun seen context middle => context = .ok () ∧ middle = world.addMap ⟨info, seen⟩) ?_
          ⟨rfl, rfl⟩ ?_ ?_ ?_ ?_ ?_
        · rintro seen context _ ⟨_, rfl⟩
          exact present
        · rintro seen context _ ⟨_, rfl⟩
          exact .replaying seen
        · rintro seen digest later context _ _ ⟨_, rfl⟩
          apply replayDigest_transient (.replaying seen)
          · exact fun errno transient => ⟨.replaying seen, fun _ _ => transient.ne_enoent, nofun⟩
          · refine ⟨rfl, ?_⟩
            simp [World.addDigest, World.addMap, modify_appended]
        · rintro errno seen context _ transient ⟨rfl, rfl⟩
          refine ⟨.replaying seen, fun errno' same => ?_, nofun⟩
          obtain rfl := Except.error.inj same
          rw [replayFailure_errno]
          exact transient.ne_enoent
        · rintro count context _ ⟨_, rfl⟩
          exact ⟨.replayed _ .whole, nofun, fun _ _ => .whole⟩
        · rintro count context _ ⟨_, rfl⟩ counted
          rw [counted]
          exact ⟨.replayed _ .cut, nofun, fun _ _ => .cut⟩
      refine wp_bind (replays.mono ?_ fun _ safe => safe)
      rintro ⟨result, context⟩ after ⟨rebuilding, other, done⟩
      cases result with
      | error errno => exact (wp_pure _).mpr (.failed _ (other errno rfl) after rebuilding)
      | ok count =>
        have replayed := done count rfl
        have same : after.pinAt (config.pinPathOf record.name) = world.pinAt (config.pinPathOf record.name) := by
          rw [World.pinAt, replayed.pins]
          rfl
        refine wp_bind (wp_bind (wp_attempt rebuilding ?_ ?_))
        · exact fun errno transient =>
            (wp_pure _).mpr ((wp_pure _).mpr (.failed _ transient.ne_enoent after rebuilding))
        · rw [same]
          cases free : world.pinAt (config.pinPathOf record.name) with
          | some map =>
            apply (wp_pure _).mpr
            exact (wp_pure _).mpr (.failed _ Errno.noConfusion after rebuilding)
          | none =>
            apply (wp_pure _).mpr
            exact (wp_pure _).mpr (.rebuilt ⟨fitsFile, fitsLog, fitsPin⟩ small free after replayed)

/-- The worlds of a rebuild that finds no log -/
def Unlogged (info : MapInfo) (begun after : World) : Prop := after = begun ∨ after = begun.addMap ⟨info, []⟩

/-- A rebuild needs the log. It is reported as missing only where all else is in order. -/
theorem wp_rebuildFromLog_missing (missing : world.logAt (config.logPathOf record.name) = none) :
    wp (rebuildFromLog config record)
      (fun result after => Unlogged (createdMapInfo record.capacity record.hashes) world after ∧
        ∃ failure, result = .error failure ∧
          (failure.errno = .enoent → Fits config record.name ∧ record.capacity < 2 ^ 32))
      (Unlogged (createdMapInfo record.capacity record.hashes) world) world := by
  unfold rebuildFromLog
  cases assigned : assignFilterPaths config record with
  | error errno =>
    obtain rfl := assignFilterPaths_error assigned
    exact (wp_pure _).mpr ⟨Or.inl rfl, _, rfl, fun same => Errno.noConfusion same⟩
  | ok placed =>
    obtain ⟨fitsFile, fitsLog, fitsPin, rfl⟩ := assignFilterPaths_ok assigned
    refine wp_bind ((wp_bpfCreateMap record.capacity record.hashes world).mono ?_ fun after same => Or.inl same)
    intro created middle creates
    cases creates with
    | refused failure other => exact (wp_pure _).mpr ⟨Or.inl rfl, failure, rfl, fun same => absurd same other⟩
    | made small =>
      have gone : (world.addMap ⟨createdMapInfo record.capacity record.hashes, []⟩).logAt
          (config.logPathOf record.name) = none := missing
      apply wp_bind
      apply wp_logReplay_missing gone (Or.inr rfl)
      exact fun errno _ => (wp_pure _).mpr ⟨Or.inr rfl, _, rfl, fun _ => ⟨⟨fitsFile, fitsLog, fitsPin⟩, small⟩⟩

theorem Replayed.view {name : Bytes} {info : MapInfo} {after : World}
    (replayed : Replayed (config.logPathOf name) log info world after)
    (present : (world.view config name).log = some log) :
    ∃ log', Trimmed log log' ∧ after.view config name = { world.view config name with
      log := some log', maps := world.maps ++ [⟨info, Framing.records digestSize log.data⟩] } := by
  cases replayed with
  | whole =>
    refine ⟨log, .refl log, ?_⟩
    rw [← present]
    rfl
  | cut =>
    refine ⟨_, Or.inr rfl, ?_⟩
    have logged : (world.addMap ⟨info, Framing.records digestSize log.data⟩).logAt
        (config.logPathOf name) = some log :=
      present
    rw [World.view_changeLog]
    simp only [World.view, logged, Option.map_some]
    rfl

theorem Rebuilding.view {name : Bytes} {info : MapInfo} {after : World}
    (rebuilding : Rebuilding (config.logPathOf name) log info world after)
    (present : (world.view config name).log = some log) :
    ∃ log' maps, Trimmed log log' ∧ after.view config name = { world.view config name with
      log := some log', maps := world.maps ++ maps } := by
  cases rebuilding with
  | untouched =>
    refine ⟨log, [], .refl log, ?_⟩
    rw [List.append_nil, ← present]
    rfl
  | replaying seen =>
    refine ⟨log, [⟨info, seen⟩], .refl log, ?_⟩
    rw [← present]
    rfl
  | replayed after replayed =>
    obtain ⟨log', trimmed, viewed⟩ := replayed.view present
    exact ⟨log', _, trimmed, viewed⟩

/-- A rebuild of a record that is in its place, as its filter sees it -/
theorem wp_rebuildFromLog_view (placed : Placed config record)
    (pinPath : record.pinPath = config.pinPathOf record.name)
    (present : (world.view config record.name).log = some log) :
    wp (rebuildFromLog config record)
      (fun result after => Rebuilt record log (world.view config record.name) result
        (after.view config record.name))
      (fun after => HalfRebuilt record log (world.view config record.name)
        (after.view config record.name)) world := by
  apply (wp_rebuildFromLog present).mono
  · intro result after outcome
    cases outcome with
    | failed failure other after rebuilding =>
      obtain ⟨log', maps, trimmed, viewed⟩ := rebuilding.view present
      rw [viewed]
      exact .failed failure other log' trimmed maps
    | rebuilt fits small free last replayed =>
      obtain ⟨log', trimmed, viewed⟩ := replayed.view present
      rw [World.view_setPin, viewed, ← placed.file, ← placed.log, ← pinPath]
      exact .rebuilt log' trimmed
  · intro after rebuilding
    obtain ⟨log', maps, trimmed, viewed⟩ := rebuilding.view present
    rw [viewed]
    exact .replaying log' trimmed maps

/-- The view after some step of a load that has no map in hand: maps may have been
made, and a torn record may have been cut off. -/
inductive Prepared (before : View) : View → Prop where
  | maps (maps : List KernelMap) : Prepared before { before with maps := before.maps ++ maps }
  | trimmed (log log' : LogFile) (present : before.log = some log) (trimmed : Trimmed log log')
      (maps : List KernelMap) :
      Prepared before { before with log := some log', maps := before.maps ++ maps }

theorem Prepared.refl (before : View) : Prepared before before := by
  have same : Prepared before { before with maps := before.maps ++ [] } := .maps []
  rwa [List.append_nil] at same

/-- The outcomes of the search for the map of a record that is in its place -/
inductive Opening (record : FilterMeta) (before : View) : Opened → View → Prop where
  | pinned (map : Nat) (there : before.pin = some map) :
      Opening record before (.map record map false) before
  | created (fresh : record.hasData = false) (free : before.pin = none) :
      Opening record before (.map record before.maps.length false)
        { before with
          maps := before.maps ++ [⟨createdMapInfo record.capacity record.hashes, []⟩] }
  | rebuilt (data : record.hasData = true) (clean : record.logClean = true) (log log' : LogFile)
      (present : before.log = some log) (trimmed : Trimmed log log') :
      Opening record before (.map record before.maps.length true)
        { before with
          log := some log', pin := some before.maps.length
          maps := before.maps ++ [⟨createdMapInfo record.capacity record.hashes,
            Framing.records digestSize log.data⟩] }
  | failed (failure : Failure) (after : View) (prepared : Prepared before after) :
      Opening record before (.failed failure) after

theorem wp_openOrRebuild (placed : Placed config record) (pinPath : record.pinPath = config.pinPathOf record.name)
    (logged : record.hasData = true → ∃ log, (world.view config record.name).log = some log) :
    wp (openOrRebuild config record)
      (fun opened after => Opening record (world.view config record.name) opened
        (after.view config record.name))
      (fun after => Prepared (world.view config record.name) (after.view config record.name)) world := by
  set before := world.view config record.name with shown
  have refused : ∀ failure, Opening record before (.failed failure) (world.view config record.name) :=
    fun failure => .failed failure _ (.refl _)
  refine wp_bind (wp_attempt (.refl _) ?_ ?_)
  · intro errno transient
    simp only [transient.ne_enoent, ↓reduceIte]
    exact (wp_pure _).mpr (refused _)
  · rw [pinPath]
    cases there : world.pinAt (config.pinPathOf record.name) with
    | some map => exact (wp_pure _).mpr (.pinned map there)
    | none =>
      simp only [↓reduceIte]
      split
      · rename_i noData
        have fresh : record.hasData = false := by simpa using noData
        refine wp_bind ((wp_bpfCreateMap record.capacity record.hashes world).mono ?_ ?_)
        · intro created after creates
          cases creates with
          | refused failure => exact (wp_pure _).mpr (refused _)
          | made => exact (wp_pure _).mpr (.created fresh there)
        · rintro after rfl
          exact .refl _
      · rename_i hasData
        have data : record.hasData = true := by simpa using hasData
        obtain ⟨log, present⟩ := logged data
        split
        · exact (wp_pure _).mpr (refused _)
        · rename_i isClean
          have clean : record.logClean = true := by simpa using isClean
          have rebuilds := wp_rebuildFromLog_view placed pinPath present
          refine wp_bind (rebuilds.mono ?_ ?_)
          · intro result after held
            generalize viewed : after.view config record.name = seen at held
            cases held with
            | rebuilt log' trimmed =>
              refine (wp_pure _).mpr ?_
              rw [viewed]
              exact .rebuilt data clean log log' present trimmed
            | failed failure other log' trimmed maps =>
              simp only [other, ↓reduceIte]
              refine (wp_pure _).mpr ?_
              rw [viewed]
              exact .failed failure _ (.trimmed log log' present trimmed maps)
          · intro after held
            generalize after.view config record.name = seen at held
            cases held with
            | replaying log' trimmed maps => exact .trimmed log log' present trimmed maps

end

end Bloomd
