import Bloomd.WorldSemantics
import Bloomd.Startup

/-! The frame of every program that works for one filter: it touches only the
files, the log and the pin of that filter, wherever it stops. The programs are
followed once, for every relation that leaves a filter its own paths. -/

namespace Bloomd

open CrashLogic Prog

/-- A program that touches only the paths of the filter `name` -/
abbrev StaysWithin (name : Bytes) (prog : Sys α) (good : α → Prop) : Prop :=
  Keeps (Within name) prog good

theorem wp_within (name : Bytes) {prog : Sys α} {good : α → Prop} {post : α → World → Prop}
    {crash : World → Prop} {world : World} (stays : StaysWithin name prog good)
    (spec : wp prog post crash world) :
    wp prog (fun value after => post value after ∧ good value ∧ Within name world after)
      (fun after => crash after ∧ Within name world after) world :=
  spec.keeps stays

/-- The relation lets the filter `name` have its own files, log and pins changed. -/
class Owns (moves : World → World → Prop) (name : Bytes) : Prop where
  setFile : ∀ (world : World) {path : Bytes},
    ((resolve path).leaf = metaLeaf name ∨ Numbered (resolve path).leaf) →
      ∀ file, moves world (world.setFile path file)
  dropFile : ∀ (world : World) {path : Bytes},
    ((resolve path).leaf = metaLeaf name ∨ Numbered (resolve path).leaf) → moves world (world.dropFile path)
  setLog : ∀ (world : World) {path : Bytes}, (resolve path).leaf = logLeaf name →
    ∀ log, moves world (world.setLog path log)
  changeLog : ∀ (world : World) {path : Bytes}, (resolve path).leaf = logLeaf name →
    ∀ change, moves world (world.changeLog path change)
  dropLog : ∀ (world : World) {path : Bytes}, (resolve path).leaf = logLeaf name →
    moves world (world.dropLog path)
  setPin : ∀ (world : World) {path : Bytes}, (resolve path).leaf = name →
    ∀ map, moves world (world.setPin path map)
  dropPin : ∀ (world : World) {path : Bytes}, (resolve path).leaf = name → moves world (world.dropPin path)

instance : Owns (Within name) name where
  setFile world _ leaf file := .setFile world leaf file
  dropFile world _ leaf := .dropFile world leaf
  setLog world _ leaf log := .setLog world leaf log
  changeLog world _ leaf change := .changeLog world leaf change
  dropLog world _ leaf := .dropLog world leaf
  setPin world _ leaf map := .setPin world leaf map
  dropPin world _ leaf := .dropPin world leaf

/-- The paths of a filter are those that its name and the roots determine, except
that the pin may lie deeper below its root. -/
structure Placed (config : Config) (metadata : FilterMeta) : Prop where
  valid : nameIsValid metadata.name = true
  file : metadata.metaPath = config.metaPathOf metadata.name
  log : metadata.logPath = config.logPathOf metadata.name
  pin : (resolve metadata.pinPath).leaf = metadata.name

/-- A filter in its place, whose log descriptor is closed or is its own log -/
structure Seated (config : Config) (filter : Filter) : Prop where
  placed : Placed config filter.metadata
  fd : filter.logFd = none ∨ filter.logFd = some filter.metadata.logPath

/-- The same filter later on: only the two flags of its metadata may differ, and
data stays. -/
structure Follows (config : Config) (filter later : Filter) : Prop where
  seated : Seated config later
  metadata : later.metadata =
    filter.metadata.withState later.metadata.hasData later.metadata.logClean
  mapFd : later.mapFd = filter.mapFd
  data : filter.metadata.hasData = true → later.metadata.hasData = true

theorem Follows.name (follows : Follows config filter later) : later.name = filter.name := by
  rw [Filter.name, follows.metadata]
  rfl

namespace Placed

variable {config : Config} {metadata : FilterMeta} (placed : Placed config metadata)
include placed

theorem metaLeaf : (resolve metadata.metaPath).leaf = Bloomd.metaLeaf metadata.name := by
  rw [placed.file]
  exact leaf_metaPathOf config placed.valid

theorem logLeaf : (resolve metadata.logPath).leaf = Bloomd.logLeaf metadata.name := by
  rw [placed.log]
  exact leaf_logPathOf config placed.valid

theorem temp_numbered (pid : Nat) : Numbered (resolve (tempPath metadata.metaPath pid)).leaf := by
  rw [tempPath, placed.file, leaf_copy config placed.valid _ (by decide)]
  exact ⟨_, _, rfl⟩

theorem withState (hasData logClean : Bool) : Placed config (metadata.withState hasData logClean) :=
  ⟨placed.valid, placed.file, placed.log, placed.pin⟩

end Placed

theorem Follows.refl (seated : Seated config filter) : Follows config filter filter :=
  ⟨seated, rfl, rfl, id⟩

theorem Follows.trans (first : Follows config filter middle) (second : Follows config middle later) :
    Follows config filter later :=
  ⟨second.seated, by rw [second.metadata, first.metadata]; rfl, second.mapFd.trans first.mapFd,
    fun data => second.data (first.data data)⟩

section Calls

variable {name path : Bytes} {moves : World → World → Prop} [IsPreorder World moves]

theorem keeps_attempt {effect : World → Except Errno α × World}
    (step : ∀ world, moves world (effect world).2) :
    Keeps moves (attempt effect) fun _ => True := by
  refine .call fun answer world => ⟨trivial, ?_⟩
  cases answer.refusal with
  | some errno => exact refl world
  | none => exact step world

theorem keeps_silent : Keeps moves sysSilent fun _ => True :=
  keeps_attempt fun world => refl world

theorem keeps_clock : Keeps moves sysClock fun _ => True :=
  .call fun _ world => ⟨trivial, refl world⟩

theorem keeps_removePathIfExists {unlink : Sys (Except Errno Unit)}
    (keeps : Keeps moves unlink fun _ => True) :
    Keeps moves (removePathIfExists unlink) fun _ => True := by
  refine .bind keeps fun result _ => ?_
  cases result with
  | ok done => exact .pure trivial
  | error errno => exact .pure trivial

theorem keeps_withFailure {call : Sys (Except Errno α)} (what : String)
    (keeps : Keeps moves call fun _ => True) :
    Keeps moves (withFailure what call) fun _ => True := by
  refine .bind keeps fun result _ => ?_
  cases result with
  | ok value => exact .pure trivial
  | error errno => exact .pure trivial

theorem keeps_read (position want : Nat) :
    Keeps moves (sysRead path position want) fun _ => True := by
  refine .call fun answer world => ⟨trivial, ?_⟩
  cases answer <;> exact refl world

theorem keeps_readDigest (position : Nat) :
    Keeps moves (readDigest path position) fun _ => True := by
  refine .loop (fun _ => True) (fun got _ => ?_) trivial
  refine .bind (keeps_read _ _) fun moved _ => ?_
  cases moved with
  | interrupted => exact .pure trivial
  | failed errno => exact .pure trivial
  | moved more =>
    refine .pure ?_
    cases takeMore got more <;> trivial

section Log

variable [Owns moves name] (leaf : (resolve path).leaf = logLeaf name)
include leaf

theorem keeps_write (chunk : Bytes) : Keeps moves (sysWrite path chunk) fun _ => True := by
  refine .call fun answer world => ⟨trivial, ?_⟩
  cases answer with
  | count n => exact Owns.changeLog world leaf _
  | interrupted => exact refl world
  | fail fault => exact refl world
  | ok => exact Owns.changeLog world leaf _
  | time now => exact Owns.changeLog world leaf _

theorem keeps_writeAll (buf : Bytes) : Keeps moves (writeAll path buf) fun _ => True := by
  refine .loop (fun _ => True) (fun rest _ => ?_) trivial
  split
  · exact .pure trivial
  · refine .bind (keeps_write leaf rest) fun result _ => ?_
    cases result with
    | interrupted => exact .pure trivial
    | failed errno => exact .pure trivial
    | moved n =>
      simp only
      split
      · exact .pure trivial
      · exact .pure trivial

theorem keeps_openLog (truncate : Bool) :
    Keeps moves (sysOpenLog path truncate) fun opened => ∀ fd, opened = .ok fd → fd = path := by
  refine .call fun answer world => ?_
  cases answer.refusal with
  | some errno => exact ⟨fun fd opened => (by cases opened), refl world⟩
  | none =>
    simp only
    split
    · exact ⟨fun fd opened => (by cases opened; rfl), refl world⟩
    · exact ⟨fun fd opened => (by cases opened; rfl), Owns.setLog world leaf _⟩

theorem keeps_fsync : Keeps moves (sysFsync path) fun _ => True :=
  keeps_attempt fun world => Owns.changeLog world leaf _

theorem keeps_truncate (length : Nat) (sync : Bool) :
    Keeps moves (logTruncate (some path) length sync) fun _ => True := by
  refine .bind (keeps_attempt fun world => Owns.changeLog world leaf _) fun result _ => ?_
  cases result with
  | error errno => exact .pure trivial
  | ok done =>
    simp only
    split
    · exact keeps_fsync leaf
    · exact .pure trivial

theorem keeps_logDelete : Keeps moves (logDelete path) fun _ => True := by
  refine keeps_removePathIfExists (keeps_attempt fun world => ?_)
  split
  · exact Owns.dropLog world leaf
  · exact refl world

/-- A replay touches the log, to cut a torn record off, and what its callback
touches. -/
theorem keeps_logReplay {κ : Type} {callback : Digest → κ → Sys (Bool × κ)} (context : κ)
    (keeps : ∀ digest context, Keeps moves (callback digest context) fun _ => True) :
    Keeps moves (logReplay path callback context) fun _ => True := by
  refine .bind (keeps_attempt fun world => ?_) fun opened _ => ?_
  · split <;> exact refl world
  · cases opened with
    | error errno => exact .pure trivial
    | ok done =>
      refine .loop (fun _ => True) (fun (count, context) _ => ?_) trivial
      refine .bind (keeps_readDigest _) fun result _ => ?_
      cases result with
      | failed errno => exact .pure trivial
      | eof partialDigest =>
        simp only
        split
        · exact .pure trivial
        · refine .bind (keeps_attempt fun world => Owns.changeLog world leaf _) fun cut _ => ?_
          cases cut with
          | error errno => exact .pure trivial
          | ok done => exact .pure trivial
      | digest digest =>
        refine .bind (keeps digest context) fun accepted _ => ?_
        simp only
        split
        · exact .pure trivial
        · exact .pure trivial

end Log

theorem keeps_pin [Owns moves name] (leaf : (resolve path).leaf = name) (map : Nat) :
    Keeps moves (bpfPinMap map path) fun _ => True := by
  refine keeps_withFailure _ (keeps_attempt fun world => ?_)
  split
  · exact refl world
  · exact Owns.setPin world leaf map

theorem keeps_unlinkPin [Owns moves name] (leaf : (resolve path).leaf = name) :
    Keeps moves (sysUnlinkPin path) fun _ => True := by
  refine keeps_attempt fun world => ?_
  split
  · exact Owns.dropPin world leaf
  · exact refl world

theorem keeps_unpin [Owns moves name] (leaf : (resolve path).leaf = name) :
    Keeps moves (bpfUnpin path) fun _ => True := by
  refine .bind (keeps_removePathIfExists (keeps_unlinkPin leaf)) fun result _ => ?_
  cases result with
  | ok done => exact .pure trivial
  | error errno => exact .pure trivial

theorem keeps_addDigest {map : Nat} {digest : Digest}
    (adds : ∀ world : World, moves world (world.addDigest map digest)) :
    Keeps moves (bpfAddDigest map digest) fun _ => True :=
  keeps_withFailure _ (keeps_attempt adds)

theorem keeps_createMap (grows : ∀ (world : World) kernel, kernel.contents = [] → moves world (world.addMap kernel))
    (capacity hashes : Nat) :
    Keeps moves (bpfCreateMap capacity hashes) fun _ => True := by
  unfold bpfCreateMap
  split
  · exact .pure trivial
  · split
    · exact .pure trivial
    · exact keeps_withFailure _ (keeps_attempt fun world => grows world _ rfl)

section Metadata

variable [Owns moves name] (leaf : (resolve path).leaf = metaLeaf name ∨ Numbered (resolve path).leaf)
include leaf

theorem keeps_createFile : Keeps moves (sysCreateFile path) fun _ => True :=
  keeps_attempt fun world => Owns.setFile world leaf none

theorem keeps_fillFile (record : MetaRecord) :
    Keeps moves (sysFillFile path record) fun _ => True := by
  refine .call fun answer world => ⟨trivial, ?_⟩
  cases answer with
  | fail fault => exact refl world
  | ok => exact Owns.setFile world leaf _
  | interrupted => exact Owns.setFile world leaf _
  | count n => exact Owns.setFile world leaf _
  | time now => exact Owns.setFile world leaf _

theorem keeps_unlinkFile : Keeps moves (sysUnlinkFile path) fun _ => True := by
  refine keeps_attempt fun world => ?_
  split
  · exact Owns.dropFile world leaf
  · exact refl world

theorem keeps_abandonTemp (errno : Errno) :
    Keeps moves (abandonTemp path errno) fun _ => True :=
  .bind (keeps_unlinkFile leaf) fun _ _ => .pure trivial

theorem keeps_rename {target : Bytes}
    (targetLeaf : (resolve target).leaf = metaLeaf name ∨ Numbered (resolve target).leaf) :
    Keeps moves (sysRename path target) fun _ => True := by
  refine keeps_attempt fun world => ?_
  split
  · exact IsTrans.trans _ _ _ (Owns.dropFile world leaf) (Owns.setFile _ targetLeaf _)
  · exact refl world

end Metadata

end Calls

section Filter

variable {config : Config} {metadata : FilterMeta} {filter : Filter} {moves : World → World → Prop}
  [IsPreorder World moves]

theorem Follows.owns (moves : World → World → Prop) [owns : Owns moves filter.name]
    (follows : Follows config filter later) : Owns moves later.name := by
  rw [follows.name]
  exact owns

theorem keeps_metaWriteAtomic [Owns moves metadata.name] (placed : Placed config metadata) :
    Keeps moves (metaWriteAtomic metadata) fun _ => True := by
  have target : (resolve metadata.metaPath).leaf = metaLeaf metadata.name ∨
      Numbered (resolve metadata.metaPath).leaf := Or.inl placed.metaLeaf
  unfold metaWriteAtomic
  split
  · exact .pure trivial
  · refine .bind (.inspect _) fun pid _ => ?_
    have temp : (resolve (tempPath metadata.metaPath pid)).leaf = metaLeaf metadata.name ∨
        Numbered (resolve (tempPath metadata.metaPath pid)).leaf := Or.inr (placed.temp_numbered pid)
    simp only
    split
    · exact .pure trivial
    · refine .bind (keeps_createFile temp) fun created _ => ?_
      cases created with
      | error errno => exact .pure trivial
      | ok done =>
        refine .bind (keeps_fillFile temp _) fun filled _ => ?_
        cases filled with
        | error errno => exact keeps_abandonTemp temp errno
        | ok done =>
          refine .bind keeps_silent fun synced _ => ?_
          cases synced with
          | error errno => exact keeps_abandonTemp temp errno
          | ok done =>
            refine .bind (keeps_rename temp target) fun renamed _ => ?_
            cases renamed with
            | error errno => exact keeps_abandonTemp temp errno
            | ok done =>
              refine .bind keeps_silent fun opened _ => ?_
              cases opened with
              | error errno => exact .pure trivial
              | ok done => exact .bind keeps_silent fun _ _ => .pure trivial

theorem keeps_metaDelete [Owns moves metadata.name] (placed : Placed config metadata) :
    Keeps moves (metaDelete metadata.metaPath) fun _ => True :=
  keeps_removePathIfExists (keeps_unlinkFile (Or.inl placed.metaLeaf))

theorem keeps_openFilterLog [Owns moves filter.name] (seated : Seated config filter) (truncate : Bool) :
    Keeps moves (openFilterLog filter truncate) fun result =>
      Follows config filter result.2 := by
  have opens : Keeps moves (logOpen filter.metadata.logPath truncate) fun opened =>
      ∀ fd, opened = .ok fd → fd = filter.metadata.logPath := by
    cases truncate with
    | true => exact keeps_openLog seated.placed.logLeaf true
    | false => exact keeps_openLog seated.placed.logLeaf false
  refine .bind opens fun opened own => ?_
  cases opened with
  | error errno => exact .pure ⟨⟨seated.placed, Or.inl rfl⟩, rfl, rfl, id⟩
  | ok fd =>
    obtain rfl := own fd rfl
    exact .bind keeps_clock fun now _ => .pure ⟨⟨seated.placed, Or.inr rfl⟩, rfl, rfl, id⟩

theorem keeps_updateFilterMetaState [owns : Owns moves filter.name] (seated : Seated config filter)
    (logClean : Bool) :
    Keeps moves (updateFilterMetaState filter true logClean) fun result =>
      Follows config filter result.2 ∧ (result.1 = .ok () → result.2.metadata.hasData = true) := by
  have : Owns moves (filter.metadata.withState true logClean).name := owns
  unfold updateFilterMetaState
  refine .bind (keeps_metaWriteAtomic (seated.placed.withState true logClean)) fun written _ => ?_
  cases written with
  | error errno => exact .pure ⟨.refl seated, nofun⟩
  | ok done =>
    exact .pure ⟨⟨⟨seated.placed.withState true logClean, seated.fd⟩, rfl, rfl, fun _ => rfl⟩, fun _ => rfl⟩

theorem keeps_logBufferAppend [Owns moves filter.name] (seated : Seated config filter) (buf : Bytes)
    (digest : Digest) : Keeps moves (logBufferAppend filter.logFd buf digest) fun _ => True := by
  rcases seated.fd with closed | opened
  · rw [closed]
    exact .pure trivial
  · rw [opened]
    unfold logBufferAppend
    simp only
    split
    · exact .pure trivial
    · split
      · refine .bind (keeps_writeAll seated.placed.logLeaf buf) fun written _ => ?_
        cases written with
        | error errno => exact .pure trivial
        | ok done => exact .pure trivial
      · exact .pure trivial

theorem keeps_logBufferFlush [Owns moves filter.name] (seated : Seated config filter) (buf : Bytes) (sync : Bool) :
    Keeps moves (logBufferFlush filter.logFd buf sync) fun _ => True := by
  rcases seated.fd with closed | opened
  · rw [closed]
    exact .pure trivial
  · rw [opened]
    refine .bind (keeps_writeAll seated.placed.logLeaf buf) fun written _ => ?_
    cases written with
    | error errno => exact .pure trivial
    | ok done =>
      simp only
      split
      · exact .bind (keeps_fsync seated.placed.logLeaf) fun _ _ => .pure trivial
      · exact .pure trivial

theorem keeps_ensureFilterDurable [Owns moves filter.name] (seated : Seated config filter) :
    Keeps moves (ensureFilterDurable filter) fun result =>
      Follows config filter result.2 ∧ (result.1 = .ok () → result.2.metadata.hasData = true) := by
  unfold ensureFilterDurable
  split
  · rename_i data
    split
    · exact (keeps_openFilterLog seated false).mono fun _ follows => ⟨follows, fun _ => follows.data data⟩
    · exact .pure ⟨.refl seated, fun _ => data⟩
  · refine .bind (keeps_pin seated.placed.pin _) fun pinned _ => ?_
    cases pinned with
    | error failure => exact .pure ⟨.refl seated, nofun⟩
    | ok done =>
      refine .bind (keeps_openFilterLog seated true) fun (opened, later) follows => ?_
      have placed := follows.seated.placed
      have := follows.owns moves
      cases opened with
      | error failure => exact .bind (keeps_unpin placed.pin) fun _ _ => .pure ⟨follows, nofun⟩
      | ok done =>
        refine .bind (keeps_updateFilterMetaState follows.seated true) fun (updated, last) ⟨more, data⟩ => ?_
        have placedLast := more.seated.placed
        have := more.owns moves
        cases updated with
        | error failure =>
          refine .bind (keeps_logDelete placedLast.logLeaf) fun _ _ => ?_
          refine .bind (keeps_unpin placedLast.pin) fun _ _ => ?_
          exact .pure ⟨⟨⟨placedLast, Or.inl rfl⟩, (follows.trans more).metadata, (follows.trans more).mapFd,
            (follows.trans more).data⟩, nofun⟩
        | ok done => exact .pure ⟨follows.trans more, fun _ => data rfl⟩

theorem keeps_markFilterLogDirty [Owns moves filter.name] (seated : Seated config filter) :
    Keeps moves (markFilterLogDirty filter) fun result =>
      Follows config filter result.2 := by
  unfold markFilterLogDirty
  split
  · exact .pure (.refl seated)
  · refine .bind (keeps_updateFilterMetaState seated false) fun (updated, later) ⟨follows, _⟩ => ?_
    cases updated with
    | error failure => exact .pure follows
    | ok done => exact .pure follows

theorem keeps_undoMark [Owns moves filter.name] (seated : Seated config filter) (undo : Bool) :
    Keeps moves (undoMark filter undo) fun later => Follows config filter later := by
  unfold undoMark
  split
  · exact .bind (keeps_updateFilterMetaState seated true) fun _ updated => .pure updated.1
  · exact .pure (.refl seated)

theorem keeps_stageDigestForAdd [Owns moves filter.name] (seated : Seated config filter) (digest : Digest)
    (mode : LogSyncMode) :
    Keeps moves (stageDigestForAdd filter digest mode) fun result =>
      Follows config filter result.2 := by
  have size : Keeps moves (stageFileSize filter mode) fun _ => True := by
    unfold stageFileSize
    split
    · exact .pure trivial
    · split
      · exact .pure trivial
      · exact keeps_attempt fun world => refl world
  refine .bind size fun measured _ => ?_
  cases measured with
  | error errno => exact .pure (.refl seated)
  | ok prevFileSize =>
    refine .bind (keeps_logBufferAppend seated _ digest) fun (appended, buf) _ => ?_
    have staged : Seated config { filter with logBuf := buf } := ⟨seated.placed, seated.fd⟩
    cases appended with
    | error errno => exact .pure ⟨staged, rfl, rfl, id⟩
    | ok done =>
      cases mode with
      | periodic => exact .pure ⟨staged, rfl, rfl, id⟩
      | always =>
        refine .bind (keeps_logBufferFlush staged _ true) fun (flushed, buf) _ => ?_
        cases flushed with
        | error errno => exact .pure ⟨⟨seated.placed, seated.fd⟩, rfl, rfl, id⟩
        | ok done => exact .pure ⟨⟨seated.placed, seated.fd⟩, rfl, rfl, id⟩

theorem keeps_rollbackStagedDigest [Owns moves filter.name] (seated : Seated config filter) (stage : LogStage)
    (mode : LogSyncMode) :
    Keeps moves (rollbackStagedDigest filter stage mode) fun later =>
      Follows config filter later := by
  cases mode with
  | periodic => exact .pure ⟨⟨seated.placed, seated.fd⟩, rfl, rfl, id⟩
  | always =>
    unfold rollbackStagedDigest
    simp only
    split
    · have cut : Keeps moves (logTruncate filter.logFd stage.prevFileSize true)
          fun _ => True := by
        rcases seated.fd with closed | opened
        · rw [closed]
          exact .pure trivial
        · rw [opened]
          exact keeps_truncate seated.placed.logLeaf _ _
      exact .bind cut fun _ _ => .pure ⟨⟨seated.placed, seated.fd⟩, rfl, rfl, id⟩
    · exact .pure ⟨⟨seated.placed, seated.fd⟩, rfl, rfl, id⟩

theorem keeps_commitStagedDigest [Owns moves filter.name] (seated : Seated config filter) (mode : LogSyncMode) :
    Keeps moves (commitStagedDigest filter mode) fun later =>
      Follows config filter later := by
  cases mode with
  | periodic => exact .pure ⟨⟨seated.placed, seated.fd⟩, rfl, rfl, id⟩
  | always =>
    exact .bind keeps_clock fun _ _ => .pure ⟨⟨seated.placed, seated.fd⟩, rfl, rfl, id⟩

theorem keeps_prepareAdd [Owns moves filter.name] (seated : Seated config filter) (mode : LogSyncMode) :
    Keeps moves (prepareAdd filter mode) fun result =>
      Follows config filter result.2 ∧ (∀ marked, result.1 = .ok marked → result.2.metadata.hasData = true) := by
  refine .bind (keeps_ensureFilterDurable seated) fun (durable, middle) ⟨follows, data⟩ => ?_
  cases durable with
  | error failure => exact .pure ⟨follows, nofun⟩
  | ok done =>
    cases mode with
    | always => exact .pure ⟨follows, fun _ _ => data rfl⟩
    | periodic =>
      have := follows.owns moves
      refine .bind (keeps_markFilterLogDirty follows.seated) fun (marked, later) more => ?_
      cases marked with
      | error failure => exact .pure ⟨follows.trans more, nofun⟩
      | ok changed => exact .pure ⟨follows.trans more, fun _ _ => more.data (data rfl)⟩

theorem keeps_addStaged [Owns moves filter.name] (seated : Seated config filter) {digest : Digest}
    (adds : ∀ world : World, moves world (world.addDigest filter.mapFd digest))
    (mode : LogSyncMode) (undo : Bool) :
    Keeps moves (addStaged filter digest mode undo) fun result =>
      Follows config filter result.2 := by
  refine .bind (keeps_stageDigestForAdd seated digest mode) fun (staged, middle) follows => ?_
  have := follows.owns moves
  cases staged with
  | error errno =>
    exact .bind (keeps_undoMark follows.seated undo) fun _ more => .pure (follows.trans more)
  | ok stage =>
    rw [← follows.mapFd] at adds
    refine .bind (keeps_addDigest adds) fun added _ => ?_
    cases added with
    | error failure =>
      refine .bind (keeps_rollbackStagedDigest follows.seated stage mode) fun later more => ?_
      have := more.owns moves
      refine .bind (keeps_undoMark more.seated undo) fun last undone => ?_
      exact .pure (follows.trans (more.trans undone))
    | ok done =>
      exact .bind (keeps_commitStagedDigest follows.seated mode) fun _ more =>
        .pure (follows.trans more)

theorem keeps_addDigestTo [Owns moves filter.name] (seated : Seated config filter) {digest : Digest}
    (adds : ∀ world : World, moves world (world.addDigest filter.mapFd digest)) (mode : LogSyncMode) :
    Keeps moves (addDigest filter digest mode) fun result =>
      Follows config filter result.2 := by
  refine .bind (keeps_prepareAdd seated mode) fun (prepared, middle) ⟨follows, _⟩ => ?_
  cases prepared with
  | error reply => exact .pure follows
  | ok marked =>
    have := follows.owns moves
    rw [← follows.mapFd] at adds
    refine .bind (keeps_addStaged follows.seated adds mode marked) fun (added, later) more => ?_
    have both := follows.trans more
    cases added with
    | error reply => exact .pure both
    | ok done => exact .pure ⟨⟨both.seated.placed, both.seated.fd⟩, both.metadata, both.mapFd, both.data⟩

theorem keeps_addItems (mode : LogSyncMode) (marked : Bool) (digests : List Digest)
    (anyAdded : Bool) [Owns moves filter.name] (seated : Seated config filter)
    (adds : ∀ digest ∈ digests, ∀ world : World, moves world (world.addDigest filter.mapFd digest)) :
    Keeps moves (addItems mode marked digests anyAdded filter) fun result =>
      Follows config filter result.2 := by
  induction digests generalizing anyAdded filter with
  | nil => exact .pure (.refl seated)
  | cons digest rest ih =>
    refine .bind (keeps_addStaged seated (adds digest List.mem_cons_self) mode _) fun (added, later) follows => ?_
    cases added with
    | error reply => exact .pure follows
    | ok done =>
      have := follows.owns moves
      rw [← follows.mapFd] at adds
      exact (ih true follows.seated fun other mem => adds other (List.mem_cons_of_mem _ mem)).mono
        fun _ more => follows.trans more

theorem keeps_addBatch [Owns moves filter.name] (seated : Seated config filter) {digests : List Digest}
    (adds : ∀ digest ∈ digests, ∀ world : World, moves world (world.addDigest filter.mapFd digest))
    (mode : LogSyncMode) :
    Keeps moves (addBatch filter digests mode) fun result =>
      Follows config filter result.2 := by
  refine .bind (keeps_prepareAdd seated mode) fun (prepared, middle) ⟨follows, _⟩ => ?_
  cases prepared with
  | error reply => exact .pure follows
  | ok marked =>
    have := follows.owns moves
    rw [← follows.mapFd] at adds
    refine .bind (keeps_addItems mode marked digests false follows.seated adds) fun (added, later) more => ?_
    have both := follows.trans more
    cases added with
    | error reply => exact .pure both
    | ok done => exact .pure ⟨⟨both.seated.placed, both.seated.fd⟩, both.metadata, both.mapFd, both.data⟩

theorem keeps_syncFilterLog [Owns moves filter.name] (seated : Seated config filter) (now : Nat) (force : Bool) :
    Keeps moves (syncFilterLog filter now force) fun later =>
      Follows config filter later := by
  unfold syncFilterLog
  split
  · exact .pure (.refl seated)
  · split
    · exact .pure (.refl seated)
    · refine .bind (keeps_logBufferFlush seated _ true) fun (flushed, buf) _ => ?_
      cases flushed with
      | error errno => exact .pure ⟨⟨seated.placed, seated.fd⟩, rfl, rfl, id⟩
      | ok done =>
        simp only
        split
        · have synced : Seated config
              { filter with logBuf := buf, lastLogSyncMs := now, logDirty := false } :=
            ⟨seated.placed, seated.fd⟩
          refine .bind (keeps_updateFilterMetaState synced true) fun (_, later) ⟨more, _⟩ => ?_
          exact .pure ⟨more.seated, more.metadata, more.mapFd, more.data⟩
        · exact .pure ⟨⟨seated.placed, seated.fd⟩, rfl, rfl, id⟩

theorem keeps_dropMetadata [Owns moves filter.name] (seated : Seated config filter) :
    Keeps moves (dropMetadata filter) fun _ => True := by
  refine .bind (keeps_metaDelete seated.placed) fun deleted _ => ?_
  cases deleted with
  | error errno =>
    simp only
    split
    · exact .bind (keeps_pin seated.placed.pin _) fun _ _ => .pure trivial
    · exact .pure trivial
  | ok done =>
    simp only
    split
    · exact .bind (keeps_logDelete seated.placed.logLeaf) fun _ _ => .pure trivial
    · exact .pure trivial

theorem keeps_dropFiles [Owns moves filter.name] (seated : Seated config filter) :
    Keeps moves (dropFiles filter) fun _ => True := by
  unfold dropFiles
  split
  · refine .bind (keeps_unpin seated.placed.pin) fun unpinned _ => ?_
    cases unpinned with
    | error failure => exact .pure trivial
    | ok done => exact keeps_dropMetadata seated
  · exact keeps_dropMetadata seated

theorem keeps_filterSetAdd (set : FilterSet) (filter : Filter) :
    Keeps moves (filterSetAdd set filter) fun added =>
      ∀ later, added = .ok later → later.items = set.items ++ [filter] := by
  unfold filterSetAdd
  split
  · refine .bind keeps_silent fun result _ => ?_
    cases result with
    | error errno => exact .pure fun later added => by cases added
    | ok done => exact .pure fun later added => by cases added; rfl
  · exact .pure fun later added => by cases added; rfl

/-- The assigned paths, all of which fit. -/
theorem assignFilterPaths_error {metadata : FilterMeta} {errno : Errno}
    (refused : assignFilterPaths config metadata = .error errno) : errno = .enametoolong := by
  have long : ∀ root suffix, joinPath root metadata.name suffix = .error errno → errno = .enametoolong := by
    intro root suffix failed
    unfold joinPath at failed
    split at failed
    · exact (Except.error.inj failed).symm
    · cases failed
  unfold assignFilterPaths at refused
  simp only [bind, Except.bind, pure, Except.pure] at refused
  split at refused
  · rename_i failed
    cases refused
    exact long _ _ failed
  · split at refused
    · rename_i failed
      cases refused
      exact long _ _ failed
    · split at refused
      · rename_i failed
        cases refused
        exact long _ _ failed
      · cases refused

theorem assignFilterPaths_ok (assigned : assignFilterPaths config metadata = .ok later) :
    (config.metaPathOf metadata.name).length < pathMax ∧
      (config.logPathOf metadata.name).length < pathMax ∧
      (config.pinPathOf metadata.name).length < pathMax ∧
      later = { metadata with
        metaPath := config.metaPathOf metadata.name
        logPath := config.logPathOf metadata.name
        pinPath := config.pinPathOf metadata.name } := by
  unfold assignFilterPaths at assigned
  simp only [bind, Except.bind, pure, Except.pure] at assigned
  split at assigned
  · cases assigned
  · rename_i metaBuilt
    split at assigned
    · cases assigned
    · rename_i logBuilt
      split at assigned
      · cases assigned
      · rename_i pinBuilt
        obtain ⟨metaFits, rfl⟩ := joinPath_ok metaBuilt
        obtain ⟨logFits, rfl⟩ := joinPath_ok logBuilt
        obtain ⟨pinFits, rfl⟩ := joinPath_ok pinBuilt
        cases assigned
        exact ⟨metaFits, logFits, pinFits, rfl⟩

theorem placed_of_assignFilterPaths (valid : nameIsValid metadata.name = true)
    (assigned : assignFilterPaths config metadata = .ok later) :
    Placed config later ∧ later.name = metadata.name := by
  obtain ⟨_, _, _, rfl⟩ := assignFilterPaths_ok assigned
  exact ⟨⟨valid, rfl, rfl, leaf_pinPathOf config valid⟩, rfl⟩

/-- An opened record is placed like the one on disk. -/
def Opened.Fits (config : Config) (name : Bytes) : Opened → Prop
  | .map record _ _ => Placed config record ∧ record.name = name
  | .stale => True
  | .failed _ => True

theorem staysWithin_rebuildFromLog (placed : Placed config record) :
    StaysWithin record.name (rebuildFromLog config record) fun rebuilt =>
      ∀ later map, rebuilt = .ok (later, map) → Placed config later ∧ later.name = record.name := by
  unfold rebuildFromLog
  split
  · exact .pure fun later map rebuilt => by cases rebuilt
  · rename_i later assigned
    obtain ⟨placedLater, same⟩ := placed_of_assignFilterPaths placed.valid assigned
    rw [← same]
    refine .bind (keeps_createMap (fun world kernel _ => .addMap world kernel) _ _) fun created _ => ?_
    cases created with
    | error failure => exact .pure fun later map rebuilt => by cases rebuilt
    | ok map =>
      have callback : ∀ digest context,
          StaysWithin later.name (replayDigest map digest context) fun _ => True := by
        intro digest context
        refine .bind (keeps_addDigest fun world => .addDigest world map digest) fun added _ => ?_
        cases added with
        | ok done => exact .pure trivial
        | error failure => exact .pure trivial
      refine .bind (keeps_logReplay placedLater.logLeaf _ callback) fun (replayed, context) _ => ?_
      cases replayed with
      | error errno => exact .pure fun later map rebuilt => by cases rebuilt
      | ok count =>
        refine .bind (keeps_pin placedLater.pin map) fun pinned _ => ?_
        cases pinned with
        | error failure => exact .pure fun later map rebuilt => by cases rebuilt
        | ok done =>
          refine .pure fun last number rebuilt => ?_
          cases rebuilt
          exact ⟨placedLater, rfl⟩

theorem staysWithin_openOrRebuild (placed : Placed config record) :
    StaysWithin record.name (openOrRebuild config record) fun opened =>
      opened.Fits config record.name := by
  have opens : StaysWithin record.name (bpfOpenPinned record.pinPath) fun _ => True :=
    keeps_attempt fun world => by split <;> exact refl world
  refine .bind opens fun result _ => ?_
  cases result with
  | ok map => exact .pure ⟨placed, rfl⟩
  | error errno =>
    simp only
    split
    · split
      · refine .bind (keeps_createMap (fun world kernel _ => .addMap world kernel) _ _) fun created _ => ?_
        cases created with
        | ok map => exact .pure ⟨placed, rfl⟩
        | error failure => exact .pure trivial
      · split
        · exact .pure trivial
        · refine .bind (staysWithin_rebuildFromLog placed) fun rebuilt fits => ?_
          cases rebuilt with
          | ok pair => exact .pure (fits pair.1 pair.2 rfl)
          | error failure =>
            simp only
            split
            · exact .pure trivial
            · exact .pure trivial
    · exact .pure trivial

theorem keeps_openLoadedLog [Owns moves filter.name] (seated : Seated config filter) :
    Keeps moves (openLoadedLog filter) fun result => Follows config filter result.2 := by
  unfold openLoadedLog
  split
  · exact keeps_openFilterLog seated false
  · exact .pure (.refl seated)

theorem keeps_metaRecoverStale [Owns moves name] (leaf : (resolve path).leaf = metaLeaf name)
    (copies : ∀ now, Numbered (resolve (path ++ bytes ".stale." ++ natText now)).leaf) :
    Keeps moves (metaRecoverStale path) fun _ => True := by
  refine .bind keeps_clock fun now _ => ?_
  simp only
  split
  · exact .pure trivial
  · exact keeps_rename (Or.inl leaf) (Or.inr (copies now))

theorem keeps_quarantine [Owns moves name] (leaf : (resolve path).leaf = metaLeaf name)
    (copies : ∀ now, Numbered (resolve (path ++ bytes ".stale." ++ natText now)).leaf)
    (loading : Loading) : Keeps moves (quarantine path loading) fun later =>
      later.set = loading.set :=
  .bind (keeps_metaRecoverStale leaf copies) fun _ _ => .pure rfl

theorem keeps_cleanupEntry [Owns moves record.name] (placed : Placed config record) (unpinOnError : Bool) :
    Keeps moves (cleanupEntry record unpinOnError) fun _ => True := by
  unfold cleanupEntry
  split
  · exact .bind (keeps_unpin placed.pin) fun _ _ => .pure trivial
  · exact .pure trivial

end Filter

end Bloomd
