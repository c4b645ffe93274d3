import Bloomd.LoadView

/-! What holds of a filter between requests. On disk its record is one the daemon
wrote, its log is there once it has data, and its pin leads to a map of its
parameters. For a filter whose log was never torn, the digests added to it are in
its map, and in the durable part of its log while the clean flag is set. -/

namespace Bloomd

open CrashLogic Prog

/-- A record as the daemon writes it -/
structure Proper (roots : Config) (name : Bytes) (record : MetaRecord) : Prop where
  named : record.name = name
  pinPath : record.pinPath = roots.pinPathOf name
  fits : Fits roots name
  capacity : record.capacity ≠ 0 ∧ record.capacity < 2 ^ 32
  hashes : record.hashes ≤ 15
  valueSize : record.valueSize = digestSize
  passes : record.isValid = true
  body : (metaBody record).length < 2048

/-- What is on disk for a record -/
structure Stored (roots : Config) (name : Bytes) (record : MetaRecord) (view : View) : Prop where
  proper : Proper roots name record
  logged : record.hasData = true → ∃ log, view.log = some log
  pinned : record.hasData = true → ∀ map, view.pin = some map → MatchedIn record map view.maps

/-- The history of a filter is safe on disk. -/
structure Kept (history : List Digest) (record : MetaRecord) (view : View) : Prop where
  fresh : record.hasData = false → history = []
  pinned : record.hasData = true → ∀ map, view.pin = some map → history ⊆ view.contents map
  clean : record.hasData = true → record.logClean = true →
    history ⊆ Framing.records digestSize view.stable

/-- A filter in memory agrees with its files. -/
structure Serves (roots : Config) (mode : LogSyncMode) (filter : Filter) (view : View) : Prop where
  placed : Placed roots filter.metadata
  file : view.file = some (some filter.metadata.toMetaRecord)
  proper : Proper roots filter.name filter.metadata.toMetaRecord
  matched : MatchedIn filter.metadata.toMetaRecord filter.mapFd view.maps
  opened : filter.metadata.hasData = true → filter.logFd = some (roots.logPathOf filter.name)
  closed : filter.metadata.hasData = false → filter.logFd = none
  logged : filter.metadata.hasData = true → ∃ log, view.log = some log
  pin : filter.metadata.hasData = true → ∀ map, view.pin = some map → map = filter.mapFd
  whole : filter.logBuf.length % digestSize = 0
  room : filter.logBuf.length ≤ logBufferCap
  inherited : filter.logHistoryIncomplete = true →
    filter.metadata.hasData = true ∧ filter.metadata.logClean = false
  always : mode = .always → filter.metadata.hasData = true →
    filter.metadata.logClean = true ∨ filter.logHistoryIncomplete = true

/-- The history of a filter in memory is safe. -/
structure Remembers (history : List Digest) (filter : Filter) (view : View) : Prop where
  fresh : filter.metadata.hasData = false → history = []
  contents : history ⊆ view.contents filter.mapFd
  clean : filter.metadata.hasData = true → filter.metadata.logClean = true →
    history ⊆ Framing.records digestSize view.stable
  pending : filter.metadata.hasData = true → filter.logHistoryIncomplete = false →
    view.data.length % digestSize = 0 →
      history ⊆ Framing.records digestSize (view.data ++ filter.logBuf)

theorem length_flagText (flag : Bool) : (flagText flag).length = 1 := by
  cases flag with
  | false => rfl
  | true => rfl

theorem length_metaBody_withState (metadata : FilterMeta) (hasData logClean : Bool) :
    (metaBody (metadata.withState hasData logClean).toMetaRecord).length =
      (metaBody metadata.toMetaRecord).length := by
  simp [metaBody, metaLine, FilterMeta.withState, length_flagText]

theorem Proper.withState {metadata : FilterMeta} (proper : Proper roots name metadata.toMetaRecord)
    (hasData logClean : Bool) :
    Proper roots name (metadata.withState hasData logClean).toMetaRecord :=
  ⟨proper.named, proper.pinPath, proper.fits, proper.capacity, proper.hashes, proper.valueSize, proper.passes, by
    rw [length_metaBody_withState]
    exact proper.body⟩

theorem MatchedIn.withState {metadata : FilterMeta} (matched : MatchedIn metadata.toMetaRecord map maps)
    (hasData logClean : Bool) : MatchedIn (metadata.withState hasData logClean).toMetaRecord map maps := by
  obtain ⟨kernel, found, matching⟩ := matched
  exact ⟨kernel, found, matching.type, matching.keySize, matching.valueSize, matching.maxEntries,
    matching.mapExtra⟩

theorem View.contents_grown {before after : View} (grown : Grown before.maps after.maps) (map : Nat) :
    before.contents map ⊆ after.contents map := by
  intro digest member
  cases found : before.maps[map]? with
  | none => simp [View.contents, found] at member
  | some kernel =>
    obtain ⟨later, foundLater, _, prefixed⟩ := grown map kernel found
    simp only [View.contents, found, foundLater, Option.map_some, Option.getD_some] at member ⊢
    exact prefixed.subset member

theorem records_subset (prefixed : before <+: after) :
    Framing.records digestSize before ⊆ Framing.records digestSize after := by
  obtain ⟨more, rfl⟩ := prefixed
  exact (Framing.records_grow digestSize_pos before more).subset

theorem Grown.append (maps more : List KernelMap) : Grown maps (maps ++ more) := by
  intro map kernel found
  exact ⟨kernel, by rw [List.getElem?_append_left (List.getElem?_eq_some_iff.mp found).1, found], rfl,
    List.prefix_refl _⟩

theorem Grown.modify (maps : List KernelMap) (map : Nat) (digest : Digest) :
    Grown maps (maps.modify map fun kernel => { kernel with contents := kernel.contents ++ [digest] }) :=
  Grown.addDigest ⟨∅, ∅, ∅, maps, 0⟩ map digest

section Disk

variable {roots : Config} {name : Bytes} {history : List Digest} {record : MetaRecord}
  {before after : View}

/-- Maps that grew and durable bytes that were added do no harm. -/
theorem Stored.grown (stored : Stored roots name record before) (pin : after.pin = before.pin)
    (logged : before.log.isSome = true → after.log.isSome = true)
    (maps : Grown before.maps after.maps) : Stored roots name record after where
  proper := stored.proper
  logged data := by
    obtain ⟨log, present⟩ := stored.logged data
    exact Option.isSome_iff_exists.mp (logged (by rw [present]; rfl))
  pinned data map there := (stored.pinned data map (pin ▸ there)).grown maps

theorem Kept.grown (kept : Kept history record before) (pin : after.pin = before.pin)
    (stable : Framing.records digestSize before.stable ⊆ Framing.records digestSize after.stable)
    (maps : Grown before.maps after.maps) : Kept history record after where
  fresh := kept.fresh
  pinned data map there :=
    List.Subset.trans (kept.pinned data map (pin ▸ there)) (View.contents_grown maps map)
  clean data clean := List.Subset.trans (kept.clean data clean) stable

end Disk

section Filters

variable (target : Option Bytes) (roots : Config)

/-- A filter that no daemon holds. Its history is looked after for the target. -/
def OnDisk (name : Bytes) (history : List Digest) (view : View) : Prop :=
  ∀ record, view.file = some (some record) → Stored roots name record view ∧
    (target = some name → Kept history record view)

/-- A filter in memory between requests -/
structure Live (mode : LogSyncMode) (filter : Filter) (history : List Digest) (view : View) : Prop where
  serves : Serves roots mode filter view
  remembers : target = some filter.name → Remembers history filter view

/-- A filter in the course of an ADD or MADD, before the next digest. `undo` says
that a failure will set the clean flag again. -/
structure Adding (mode : LogSyncMode) (undo : Bool) (filter : Filter) (history : List Digest)
    (view : View) : Prop where
  live : Live target roots mode filter history view
  data : filter.metadata.hasData = true
  dirty : mode = .periodic → filter.metadata.logClean = false
  aligned : target = some filter.name → view.data.length % digestSize = 0
  complete : undo = true → filter.logHistoryIncomplete = false
  retained : undo = true → target = some filter.name →
    history ⊆ Framing.records digestSize view.stable

variable {target roots} {mode : LogSyncMode} {filter later : Filter} {history : List Digest}
  {before after : View} {log : LogFile} {digest : Digest} {undo : Bool}

theorem View.data_of {view : View} {log : LogFile} (present : view.log = some log) :
    view.data = log.data := by
  simp [View.data, present]

theorem View.stable_of {view : View} {log : LogFile} (present : view.log = some log) :
    view.stable = log.stable := by
  simp [View.stable, present]

/-- A crash leaves a filter as it is on disk. -/
theorem Live.onDisk (live : Live target roots mode filter history before) :
    OnDisk target roots filter.name history before := by
  intro record found
  rw [live.serves.file] at found
  obtain rfl : filter.metadata.toMetaRecord = record := by simpa using found
  refine ⟨⟨live.serves.proper, live.serves.logged, fun data map there => ?_⟩, fun aimed => ?_⟩
  · rw [live.serves.pin data map there]
    exact live.serves.matched
  · have remembers := live.remembers aimed
    refine ⟨remembers.fresh, fun data map there => ?_, remembers.clean⟩
    rw [live.serves.pin data map there]
    exact remembers.contents

theorem OnDisk.grown (disk : OnDisk target roots name history before) (file : after.file = before.file)
    (pin : after.pin = before.pin) (logged : before.log.isSome = true → after.log.isSome = true)
    (stable : Framing.records digestSize before.stable ⊆ Framing.records digestSize after.stable)
    (maps : Grown before.maps after.maps) : OnDisk target roots name history after := by
  intro record found
  obtain ⟨stored, kept⟩ := disk record (file ▸ found)
  exact ⟨stored.grown pin logged maps, fun aimed => (kept aimed).grown pin stable maps⟩

/-- The counters of a filter and the time of its last sync play no part. -/
theorem Live.counted (live : Live target roots mode filter history before)
    (adds checks batchAdds batchChecks now : Nat) :
    Live target roots mode { filter with
      addCalls := adds, checkCalls := checks, batchAddCalls := batchAdds,
      batchCheckCalls := batchChecks, lastLogSyncMs := now } history before where
  serves :=
    { placed := live.serves.placed, file := live.serves.file, proper := live.serves.proper
      matched := live.serves.matched, opened := live.serves.opened, closed := live.serves.closed
      logged := live.serves.logged, pin := live.serves.pin, whole := live.serves.whole
      room := live.serves.room, inherited := live.serves.inherited, always := live.serves.always }
  remembers aimed :=
    { fresh := (live.remembers aimed).fresh, contents := (live.remembers aimed).contents
      clean := (live.remembers aimed).clean, pending := (live.remembers aimed).pending }

theorem Serves.grown (serves : Serves roots mode filter before) (file : after.file = before.file)
    (pin : after.pin = before.pin) (logged : before.log.isSome = true → after.log.isSome = true)
    (maps : Grown before.maps after.maps) : Serves roots mode filter after :=
  { serves with
    file := file ▸ serves.file
    matched := serves.matched.grown maps
    logged := fun data => by
      obtain ⟨log, present⟩ := serves.logged data
      exact Option.isSome_iff_exists.mp (logged (by rw [present]; rfl))
    pin := fun data map there => serves.pin data map (pin ▸ there) }

/-- The buffer and the log of a filter were rewritten. -/
theorem Serves.rebuffered (serves : Serves roots mode filter before) {buf : Bytes} {dirty : Bool}
    {now : Nat} {log : LogFile} {maps : List KernelMap} (whole : buf.length % digestSize = 0)
    (room : buf.length ≤ logBufferCap) (grown : Grown before.maps maps) :
    Serves roots mode { filter with logBuf := buf, logDirty := dirty, lastLogSyncMs := now }
      { before with log := some log, maps } where
  placed := serves.placed
  file := serves.file
  proper := serves.proper
  matched := serves.matched.grown grown
  opened := serves.opened
  closed := serves.closed
  logged _ := ⟨log, rfl⟩
  pin := serves.pin
  whole := whole
  room := room
  inherited := serves.inherited
  always := serves.always

/-- The flags of a filter with data were written. -/
theorem Serves.reflagged (serves : Serves roots mode filter before)
    (data : filter.metadata.hasData = true) (clean : Bool)
    (inherited : filter.logHistoryIncomplete = true → clean = false)
    (always : mode = .always → clean = true ∨ filter.logHistoryIncomplete = true) :
    Serves roots mode { filter with metadata := filter.metadata.withState true clean }
      { before with file := some (some (filter.metadata.withState true clean).toMetaRecord) } where
  placed := serves.placed.withState true clean
  file := rfl
  proper := serves.proper.withState true clean
  matched := serves.matched.withState true clean
  opened _ := serves.opened data
  closed fresh := by cases fresh
  logged _ := serves.logged data
  pin _ := serves.pin data
  whole := serves.whole
  room := serves.room
  inherited incomplete := ⟨rfl, inherited incomplete⟩
  always mode _ := always mode

/-- The digests of a map after one more update -/
theorem View.contents_modify (view : View) {map : Nat} (present : map < view.maps.length)
    (digest : Digest) (log : Option LogFile) :
    View.contents { view with log, maps := view.maps.modify map fun kernel =>
      { kernel with contents := kernel.contents ++ [digest] } } map = view.contents map ++ [digest] := by
  simp [View.contents, present]

/-- Records of a log that was staged to, when it ended with a whole record -/
theorem Advance.records {buf later : Bytes} {log' : LogFile}
    (advance : Advance mode digest buf log later log') (whole : buf.length % digestSize = 0)
    (aligned : log.data.length % digestSize = 0) :
    Framing.records digestSize (log'.data ++ later) =
      Framing.records digestSize (log.data ++ buf) ++ [digest] := by
  rw [advance.bytes, Framing.records_append digestSize_pos (length_append_whole aligned whole),
    records_digest]

theorem Advance.aligned {buf later : Bytes} {log' : LogFile}
    (advance : Advance mode digest buf log later log') (aligned : log.data.length % digestSize = 0) :
    log'.data.length % digestSize = 0 := by
  obtain ⟨chunk, split, whole⟩ := advance.written
  rw [split]
  exact length_append_whole aligned whole

/-- In `always` mode a complete log holds the history in its durable part. -/
theorem Live.durable (live : Live target roots .always filter history before)
    (data : filter.metadata.hasData = true) (complete : filter.logHistoryIncomplete = false)
    (aimed : target = some filter.name) : history ⊆ Framing.records digestSize before.stable := by
  refine (live.remembers aimed).clean data ?_
  rcases live.serves.always rfl data with clean | incomplete
  · exact clean
  · rw [complete] at incomplete
    cases incomplete

/-- What a setback leaves of the history -/
theorem Adding.setback (adding : Adding target roots mode undo filter history before)
    (present : before.log = some log) {buf : Bytes} {log' : LogFile}
    (setback : Setback mode filter.logBuf log buf log') (complete : filter.logHistoryIncomplete = false)
    (aimed : target = some filter.name) (aligned : log'.data.length % digestSize = 0) :
    history ⊆ Framing.records digestSize (log'.data ++ buf) := by
  have framed := adding.aligned aimed
  cases mode with
  | periodic =>
    have pending := (adding.live.remembers aimed).pending adding.data complete framed
    rw [View.data_of present] at framed pending
    exact List.Subset.trans pending (setback.retained rfl framed aligned)
  | always =>
    have durable := adding.live.durable adding.data complete aimed
    rw [View.stable_of present] at durable
    refine List.Subset.trans durable (records_subset (setback.stable.trans ?_))
    rw [LogFile.data, List.append_assoc]
    exact List.prefix_append _ _

/-- The digest is in the log and in the map. -/
theorem Adding.added (adding : Adding target roots mode undo filter history before)
    (present : before.log = some log) {buf : Bytes} {log' : LogFile} {dirty : Bool} {now : Nat}
    (advance : Advance mode digest filter.logBuf log buf log') :
    Adding target roots mode false
      { filter with logBuf := buf, logDirty := dirty, lastLogSyncMs := now } (history ++ [digest])
      { before with log := some log', maps := before.maps.modify filter.mapFd fun kernel =>
          { kernel with contents := kernel.contents ++ [digest] } } := by
  have serves := adding.live.serves
  refine ⟨⟨serves.rebuffered advance.whole advance.room (.modify _ _ _), fun aimed => ?_⟩, adding.data,
    adding.dirty, fun aimed => ?_, fun undo => (by cases undo), fun undo => (by cases undo)⟩
  · have remembers := adding.live.remembers aimed
    have framed := adding.aligned aimed
    rw [View.data_of present] at framed
    have records := advance.records serves.whole framed
    refine ⟨fun fresh => ?_, ?_, fun data clean => ?_, fun data complete _ => ?_⟩
    · rw [adding.data] at fresh
      cases fresh
    · rw [View.contents_modify before serves.matched.bound]
      exact List.append_subset.mpr ⟨List.subset_append_of_subset_left _ remembers.contents,
        List.subset_append_right _ _⟩
    · have always : mode = .always := by
        cases mode with
        | always => rfl
        | periodic =>
          rw [adding.dirty rfl] at clean
          cases clean
      obtain ⟨rfl, synced⟩ := advance.synced always
      have all : log'.stable = log'.data := by rw [LogFile.data, synced, List.append_nil]
      rw [List.append_nil] at records
      change _ ⊆ Framing.records digestSize log'.stable
      rw [all, records]
      refine List.append_subset.mpr ⟨List.subset_append_of_subset_left _ ?_, List.subset_append_right _ _⟩
      have durable := remembers.clean data clean
      rw [View.stable_of present] at durable
      refine List.Subset.trans durable (records_subset ?_)
      rw [LogFile.data, List.append_assoc]
      exact List.prefix_append _ _
    · change _ ⊆ Framing.records digestSize (log'.data ++ buf)
      rw [records]
      refine List.append_subset.mpr ⟨List.subset_append_of_subset_left _ ?_, List.subset_append_right _ _⟩
      have pending := remembers.pending data complete (adding.aligned aimed)
      rwa [View.data_of present] at pending
  · have framed := adding.aligned aimed
    rw [View.data_of present] at framed
    exact advance.aligned framed

theorem Adding.failed (adding : Adding target roots mode undo filter history before)
    (present : before.log = some log) {buf : Bytes} {log' : LogFile} {dirty : Bool}
    (setback : Setback mode filter.logBuf log buf log') :
    Live target roots mode { filter with logBuf := buf, logDirty := dirty } history
      { before with log := some log' } := by
  refine ⟨adding.live.serves.rebuffered setback.whole setback.room (.refl _), fun aimed => ?_⟩
  have remembers := adding.live.remembers aimed
  refine ⟨remembers.fresh, remembers.contents, fun data clean => ?_, fun data complete aligned => ?_⟩
  · have durable := remembers.clean data clean
    rw [View.stable_of present] at durable
    exact List.Subset.trans durable (records_subset setback.stable)
  · exact adding.setback present setback complete aimed aligned

theorem Adding.reflagged (adding : Adding target roots mode true filter history before)
    (present : before.log = some log) {buf : Bytes} {log' : LogFile} {dirty : Bool}
    (setback : Setback mode filter.logBuf log buf log') :
    Live target roots mode
      { filter with
        logBuf := buf, logDirty := dirty
        metadata := filter.metadata.withState true true } history
      { before with
        log := some log'
        file := some (some (filter.metadata.withState true true).toMetaRecord) } := by
  have complete := adding.complete rfl
  have live : Live target roots mode { filter with logBuf := buf, logDirty := dirty } history
      { before with log := some log' } := adding.failed present setback
  refine ⟨live.serves.reflagged adding.data true ?_ fun _ => Or.inl rfl, fun aimed => ?_⟩
  · intro incomplete
    rw [complete] at incomplete
    cases incomplete
  · have remembers := live.remembers aimed
    refine ⟨fun fresh => (by cases fresh), remembers.contents, fun _ _ => ?_, fun _ _ aligned => ?_⟩
    · have retained := adding.retained rfl aimed
      rw [View.stable_of present] at retained
      exact List.Subset.trans retained (records_subset setback.stable)
    · exact adding.setback present setback complete aimed aligned

/-- One digest of an ADD or MADD: what the map took in joins the history. -/
theorem Adding.addition (adding : Adding target roots mode undo filter history before)
    (present : before.log = some log) {result : Except Reply Unit}
    (addition : Addition mode digest undo filter log before result later after) :
    ∃ news, after.contents filter.mapFd = before.contents filter.mapFd ++ news ∧
      Live target roots mode later (history ++ news) after ∧
      (result = .ok () → Adding target roots mode false later (history ++ news) after) ∧
      later.name = filter.name ∧ later.mapFd = filter.mapFd := by
  have bound := adding.live.serves.matched.bound
  cases addition with
  | added buf log' dirty now advance =>
    have next : Adding target roots mode false
        { filter with logBuf := buf, logDirty := dirty, lastLogSyncMs := now } (history ++ [digest])
        { before with log := some log', maps := before.maps.modify filter.mapFd fun kernel =>
          { kernel with contents := kernel.contents ++ [digest] } } := adding.added present advance
    exact ⟨[digest], View.contents_modify before bound digest _, next.live, fun _ => next, rfl, rfl⟩
  | failed reply buf log' dirty setback =>
    refine ⟨[], (List.append_nil _).symm, ?_, fun failed => (by cases failed), rfl, rfl⟩
    rw [List.append_nil]
    exact adding.failed present setback
  | reflagged reply buf log' dirty setback undone =>
    subst undone
    refine ⟨[], (List.append_nil _).symm, ?_, fun failed => (by cases failed), rfl, rfl⟩
    rw [List.append_nil]
    exact adding.reflagged present setback

/-- A crash in the course of an addition -/
theorem Adding.interrupted (adding : Adding target roots mode undo filter history before)
    (present : before.log = some log)
    (interrupted : Interrupted mode digest undo filter log before after) :
    ∃ news, after.contents filter.mapFd = before.contents filter.mapFd ++ news ∧
      OnDisk target roots filter.name (history ++ news) after := by
  have bound := adding.live.serves.matched.bound
  have stables : ∀ log' : LogFile, log.stable <+: log'.stable →
      Framing.records digestSize before.stable ⊆ Framing.records digestSize log'.stable := by
    intro log' stable
    rw [View.stable_of present]
    exact records_subset stable
  cases interrupted with
  | staging log' stable =>
    refine ⟨[], (List.append_nil _).symm, ?_⟩
    rw [List.append_nil]
    exact adding.live.onDisk.grown rfl rfl (fun _ => rfl) (stables log' stable) (.refl _)
  | reflagging log' stable undone =>
    subst undone
    refine ⟨[], (List.append_nil _).symm, ?_⟩
    rw [List.append_nil]
    have serves := adding.live.serves
    intro record found
    obtain rfl : (filter.metadata.withState true true).toMetaRecord = record := by simpa using found
    refine ⟨⟨serves.proper.withState true true, fun _ => ⟨log', rfl⟩, fun _ map there => ?_⟩,
      fun aimed => ⟨fun fresh => (by cases fresh), fun _ map there => ?_, fun _ _ => ?_⟩⟩
    · rw [serves.pin adding.data map there]
      exact serves.matched.withState true true
    · rw [serves.pin adding.data map there]
      exact (adding.live.remembers aimed).contents
    · exact List.Subset.trans (adding.retained rfl aimed) (stables log' stable)
  | updated buf log' advance =>
    have next : Adding target roots mode false
        { filter with logBuf := buf, logDirty := true, lastLogSyncMs := 0 } (history ++ [digest])
        { before with log := some log', maps := before.maps.modify filter.mapFd fun kernel =>
          { kernel with contents := kernel.contents ++ [digest] } } := adding.added present advance
    exact ⟨[digest], View.contents_modify before bound digest _, next.live.onDisk⟩

/-- A filter without data has no history to lose. -/
theorem Live.fresh (live : Live target roots mode filter history before)
    (fresh : filter.metadata.hasData = false) (aimed : target = some filter.name) : history = [] :=
  (live.remembers aimed).fresh fresh

theorem remembers_nil (filter : Filter) (view : View) : Remembers [] filter view :=
  ⟨fun _ => rfl, List.nil_subset _, fun _ _ => List.nil_subset _, fun _ _ _ => List.nil_subset _⟩

theorem kept_nil (record : MetaRecord) (view : View) : Kept [] record view :=
  ⟨fun _ => rfl, fun _ _ _ => List.nil_subset _, fun _ _ => List.nil_subset _⟩

theorem Live.complete_of_fresh (live : Live target roots mode filter history before)
    (fresh : filter.metadata.hasData = false) : filter.logHistoryIncomplete = false := by
  cases incomplete : filter.logHistoryIncomplete with
  | false => rfl
  | true =>
    rw [(live.serves.inherited incomplete).1] at fresh
    cases fresh

/-- The first durable write -/
theorem Live.durableAfter (live : Live target roots mode filter history before)
    {result : Except Failure Unit} (durable : Durable filter before result later after) :
    Live target roots mode later history after ∧
      (result = .ok () → later.metadata.hasData = true) ∧ after.maps = before.maps ∧
      later.name = filter.name ∧ later.mapFd = filter.mapFd ∧
      (later.metadata.hasData = true →
        (target = some filter.name → before.data.length % digestSize = 0) →
        target = some filter.name → after.data.length % digestSize = 0) := by
  have serves := live.serves
  cases durable with
  | already data => exact ⟨live, fun _ => data, rfl, rfl, rfl, fun _ aligned => aligned⟩
  | first fresh free now =>
    refine ⟨⟨?_, fun aimed => ?_⟩, fun _ => rfl, rfl, rfl, rfl, fun _ _ _ => rfl⟩
    · exact {
        placed := serves.placed.withState true true
        file := rfl
        proper := serves.proper.withState true true
        matched := serves.matched.withState true true
        opened := fun _ => congrArg some serves.placed.log
        closed := fun fresh => (by cases fresh)
        logged := fun _ => ⟨_, rfl⟩
        pin := fun _ map there => (Option.some.inj there).symm
        whole := rfl
        room := Nat.zero_le _
        inherited := fun incomplete => (by
          have complete := live.complete_of_fresh fresh
          rw [complete] at incomplete
          cases incomplete)
        always := fun _ _ => Or.inl rfl }
    · have none : history = [] := live.fresh fresh aimed
      rw [none]
      exact remembers_nil _ _
  | failed fresh failure fd closed buf kept dirty now log pin =>
    refine ⟨⟨?_, fun aimed => ?_⟩, fun failed => (by cases failed), rfl, rfl, rfl, fun data => ?_⟩
    · exact { serves with
        opened := fun data => (by rw [fresh] at data; cases data)
        closed := fun _ => closed.elim id fun same => same.trans (serves.closed fresh)
        logged := fun data => (by rw [fresh] at data; cases data)
        pin := fun data => (by rw [fresh] at data; cases data)
        whole := kept.elim (fun same => same ▸ serves.whole) fun none => none ▸ rfl
        room := kept.elim (fun same => same ▸ serves.room) fun none => none ▸ Nat.zero_le _ }
    · have none : history = [] := live.fresh fresh aimed
      rw [none]
      exact remembers_nil _ _
    · rw [fresh] at data
      cases data

theorem Live.halfDurable (live : Live target roots mode filter history before)
    (half : HalfDurable filter before after) :
    OnDisk target roots filter.name history after ∧ after.maps = before.maps := by
  have serves := live.serves
  cases half with
  | pending fresh log pin =>
    refine ⟨fun record found => ?_, rfl⟩
    obtain rfl : filter.metadata.toMetaRecord = record := by simpa [serves.file] using found
    refine ⟨⟨serves.proper, fun data => ?_, fun data => ?_⟩, fun aimed => ?_⟩
    · rw [fresh] at data
      cases data
    · rw [fresh] at data
      cases data
    · rw [live.fresh fresh aimed]
      exact kept_nil _ _
  | recorded fresh =>
    refine ⟨fun record found => ?_, rfl⟩
    obtain rfl : (filter.metadata.withState true true).toMetaRecord = record := by simpa using found
    refine ⟨⟨serves.proper.withState true true, fun _ => ⟨_, rfl⟩, fun _ map there => ?_⟩, fun aimed => ?_⟩
    · obtain rfl : filter.mapFd = map := by simpa using there
      exact serves.matched.withState true true
    · rw [live.fresh fresh aimed]
      exact kept_nil _ _

/-- Clearing the clean flag -/
theorem Live.cleared (live : Live target roots mode filter history before)
    (data : filter.metadata.hasData = true) (periodic : mode = .periodic) :
    Live target roots mode { filter with metadata := filter.metadata.withState true false } history
      { before with file := some (some (filter.metadata.withState true false).toMetaRecord) } := by
  refine ⟨live.serves.reflagged data false (fun _ => rfl) fun always => ?_, fun aimed => ?_⟩
  · rw [periodic] at always
    cases always
  · have remembers := live.remembers aimed
    exact ⟨fun fresh => (by cases fresh), remembers.contents, fun _ clean => (by cases clean),
      fun _ => remembers.pending data⟩

/-- The log of a dirty filter was flushed. -/
theorem Live.flushed (live : Live target roots mode filter history before)
    (present : before.log = some log) {dirty : Bool} {now : Nat} {log' : LogFile}
    (bytes : log'.data = log.data ++ filter.logBuf) (stable : log.stable <+: log'.stable)
    (framed : target = some filter.name → before.data.length % digestSize = 0) :
    Live target roots mode
      { filter with logBuf := [], lastLogSyncMs := now, logDirty := dirty } history
      { before with log := some log' } := by
  refine ⟨live.serves.rebuffered rfl (Nat.zero_le _) (.refl _), fun aimed => ?_⟩
  have remembers := live.remembers aimed
  refine ⟨remembers.fresh, remembers.contents, fun data clean => ?_, fun data complete _ => ?_⟩
  · have durable := remembers.clean data clean
    rw [View.stable_of present] at durable
    exact List.Subset.trans durable (records_subset stable)
  · have pending := remembers.pending data complete (framed aimed)
    change _ ⊆ Framing.records digestSize (log'.data ++ [])
    rw [List.append_nil, bytes]
    rwa [View.data_of present] at pending

/-- A complete log was flushed and its flag set again. -/
theorem Live.flagged (live : Live target roots mode filter history before)
    (present : before.log = some log) (data : filter.metadata.hasData = true)
    (complete : filter.logHistoryIncomplete = false) {dirty : Bool} {now : Nat}
    (framed : target = some filter.name → before.data.length % digestSize = 0) :
    Live target roots mode
      { filter with
        logBuf := [], lastLogSyncMs := now, logDirty := dirty
        metadata := filter.metadata.withState true true } history
      { before with
        log := some (log.append filter.logBuf).synced
        file := some (some (filter.metadata.withState true true).toMetaRecord) } := by
  have bytes : (log.append filter.logBuf).synced.data = log.data ++ filter.logBuf := by simp
  have flushed : Live target roots mode
      { filter with logBuf := [], lastLogSyncMs := now, logDirty := dirty } history
      { before with log := some (log.append filter.logBuf).synced } :=
    live.flushed present bytes (List.prefix_append log.stable _) framed
  refine ⟨flushed.serves.reflagged data true ?_ fun _ => Or.inl rfl, fun aimed => ?_⟩
  · intro incomplete
    rw [complete] at incomplete
    cases incomplete
  · have remembers := flushed.remembers aimed
    refine ⟨fun fresh => (by cases fresh), remembers.contents, fun _ _ => ?_,
      fun _ => remembers.pending data⟩
    have pending := (live.remembers aimed).pending data complete (framed aimed)
    change _ ⊆ Framing.records digestSize (log.append filter.logBuf).data
    rw [LogFile.data_append]
    rwa [View.data_of present] at pending

theorem Live.syncedAfter (live : Live target roots mode filter history before)
    (present : before.log = some log) (data : filter.metadata.hasData = true)
    (framed : filter.logDirty = true → target = some filter.name →
      before.data.length % digestSize = 0)
    (synced : Synced filter log before later after) : Live target roots mode later history after := by
  cases synced with
  | idle => exact live
  | stopped dirty written now =>
    have setback : Setback .periodic filter.logBuf log filter.logBuf (log.append written) :=
      .stopped .periodic live.serves.whole live.serves.room written
    refine ⟨live.serves.rebuffered live.serves.whole live.serves.room (.refl _), fun aimed => ?_⟩
    have remembers := live.remembers aimed
    refine ⟨remembers.fresh, remembers.contents, fun data clean => ?_, fun data complete aligned => ?_⟩
    · have durable := remembers.clean data clean
      rwa [View.stable_of present] at durable
    · have begun := framed dirty aimed
      have pending := remembers.pending data complete begun
      rw [View.data_of present] at begun pending
      exact List.Subset.trans pending (setback.retained rfl begun aligned)
  | unsynced dirty now =>
    exact live.flushed present (LogFile.data_append _ _) (List.prefix_refl _) (framed dirty)
  | synced dirty now =>
    exact live.flushed present (by simp) (List.prefix_append log.stable _) (framed dirty)
  | flagged dirty complete now => exact live.flagged present data complete (framed dirty)

theorem Live.halfSynced (live : Live target roots mode filter history before)
    (present : before.log = some log) (data : filter.metadata.hasData = true)
    (framed : filter.logDirty = true → target = some filter.name →
      before.data.length % digestSize = 0)
    (half : HalfSynced filter log before after) : OnDisk target roots filter.name history after := by
  have stables : ∀ log' : LogFile, log.stable <+: log'.stable →
      Framing.records digestSize before.stable ⊆ Framing.records digestSize log'.stable := by
    intro log' stable
    rw [View.stable_of present]
    exact records_subset stable
  cases half with
  | flushing written =>
    exact live.onDisk.grown rfl rfl (fun _ => rfl) (stables _ (List.prefix_refl _)) (.refl _)
  | synced =>
    exact live.onDisk.grown rfl rfl (fun _ => rfl) (stables _ (List.prefix_append log.stable _)) (.refl _)
  | flagged dirty complete =>
    have flagged : Live target roots mode
        { filter with
          logBuf := [], lastLogSyncMs := 0, logDirty := false
          metadata := filter.metadata.withState true true } history
        { before with
          log := some (log.append filter.logBuf).synced
          file := some (some (filter.metadata.withState true true).toMetaRecord) } :=
      live.flagged present data complete (framed dirty)
    exact flagged.onDisk

/-- The view before a map is in hand keeps what is on disk. -/
theorem OnDisk.prepared (disk : OnDisk target roots name history before)
    (prepared : Prepared before after) : OnDisk target roots name history after := by
  cases prepared with
  | maps maps => exact disk.grown rfl rfl id (List.Subset.refl _) (.append _ _)
  | trimmed log log' present trimmed maps =>
    refine disk.grown rfl rfl (fun _ => rfl) ?_ (.append _ _)
    rw [View.stable_of present]
    exact trimmed.records.2.symm ▸ List.Subset.refl _

theorem MatchedIn.created {record : MetaRecord} (proper : Proper roots name record)
    (maps : List KernelMap) (contents : List Digest) :
    MatchedIn record maps.length
      (maps ++ [⟨createdMapInfo record.capacity record.hashes, contents⟩]) :=
  ⟨⟨createdMapInfo record.capacity record.hashes, contents⟩, by simp,
    matching_created proper.capacity.2 proper.hashes proper.valueSize⟩

/-- The map that the loader has in hand holds the history. -/
theorem OnDisk.opening {record : FilterMeta} {opened : Opened}
    (disk : OnDisk target roots name history before)
    (found : before.file = some (some record.toMetaRecord)) (opening : Opening record before opened after) :
    OnDisk target roots name history after ∧ after.file = before.file ∧ match opened with
      | .map loaded map _ => loaded = record ∧
          (record.hasData = true → ∀ pinned, after.pin = some pinned → pinned = map) ∧
          (target = some name → history ⊆ after.contents map)
      | _ => True := by
  obtain ⟨stored, kept⟩ := disk _ found
  cases opening with
  | pinned map there =>
    refine ⟨disk, rfl, rfl, fun _ pinned same => ?_, fun aimed => ?_⟩
    · rw [there] at same
      exact (Option.some.inj same).symm
    · cases data : record.hasData with
      | false =>
        rw [(kept aimed).fresh data]
        exact List.nil_subset _
      | true => exact (kept aimed).pinned data map there
  | created fresh free =>
    refine ⟨disk.grown rfl rfl id (List.Subset.refl _) (.append _ _), rfl, rfl, fun data => ?_,
      fun aimed => ?_⟩
    · rw [fresh] at data
      cases data
    · rw [(kept aimed).fresh fresh]
      exact List.nil_subset _
  | rebuilt data clean log log' present trimmed =>
    have holds : target = some name → history ⊆ Framing.records digestSize log.data := by
      intro aimed
      have durable := (kept aimed).clean data clean
      rw [View.stable_of present] at durable
      exact List.Subset.trans durable (records_subset (List.prefix_append _ _))
    have contents : View.contents { before with
        log := some log', pin := some before.maps.length
        maps := before.maps ++ [⟨createdMapInfo record.capacity record.hashes,
          Framing.records digestSize log.data⟩] } before.maps.length =
        Framing.records digestSize log.data := by
      simp [View.contents]
    refine ⟨?_, rfl, rfl, fun _ pinned same => (Option.some.inj same).symm, fun aimed => ?_⟩
    · intro other same
      obtain rfl : record.toMetaRecord = other := by simpa [found] using same
      refine ⟨⟨stored.proper, fun _ => ⟨log', rfl⟩, fun _ map there => ?_⟩, fun aimed => ?_⟩
      · obtain rfl : before.maps.length = map := by simpa using there
        exact .created stored.proper _ _
      · refine ⟨(kept aimed).fresh, fun _ map there => ?_, fun _ _ => ?_⟩
        · obtain rfl : before.maps.length = map := by simpa using there
          rw [contents]
          exact holds aimed
        · have durable := (kept aimed).clean data clean
          rw [View.stable_of present, ← trimmed.records.2] at durable
          exact durable
    · rw [contents]
      exact holds aimed
  | failed failure after prepared =>
    refine ⟨disk.prepared prepared, ?_, trivial⟩
    cases prepared with
    | maps maps => rfl
    | trimmed log log' present trimmed maps => rfl

end Filters

end Bloomd
