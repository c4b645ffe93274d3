import Bloomd.HistoryInvariant

/-! No false negatives across recovery: the work done for a filter keeps its
history safe, so every run does, as long as additions and syncs of the filter find
a log that ends with a whole record. -/

namespace Bloomd

open CrashLogic Prog

section Work

variable {target : Option Bytes} {roots : Config} {mode : LogSyncMode} {filter : Filter}
  {history : List Digest} {world : World}

/-- The steps before the first digest leave the maps alone. -/
theorem wp_prepareAdd
    (live : Live target roots mode filter history (world.view roots filter.name))
    (framed : target = some filter.name →
      (world.view roots filter.name).data.length % digestSize = 0) :
    wp (prepareAdd filter mode)
      (fun result after => result.2.name = filter.name ∧ result.2.mapFd = filter.mapFd ∧
        after.maps = world.maps ∧
        Live target roots mode result.2 history (after.view roots filter.name) ∧
        ∀ marked, result.1 = .ok marked →
          Adding target roots mode marked result.2 history (after.view roots filter.name))
      (fun after => after.maps = world.maps ∧
        OnDisk target roots filter.name history (after.view roots filter.name)) world := by
  have serves := live.serves
  have opened : filter.metadata.hasData = true → filter.logFd.isSome = true := by
    intro data
    rw [serves.opened data]
    rfl
  have ensures := @wp_ensureFilterDurable world roots filter serves.placed serves.proper.pinPath opened
  refine wp_bind (ensures.mono ?_ ?_)
  swap
  · intro after half
    obtain ⟨disk, maps⟩ := live.halfDurable half
    exact ⟨maps, disk⟩
  · rintro ⟨result, middle⟩ after durable
    obtain ⟨liveMiddle, hasData, maps, named, mapFd, aligned⟩ := live.durableAfter durable
    cases result with
    | error failure => exact (wp_pure _).mpr ⟨named, mapFd, maps, liveMiddle, fun _ failed => (by cases failed)⟩
    | ok done =>
      have named : middle.name = filter.name := named
      have data : middle.metadata.hasData = true := hasData rfl
      have framedMiddle := aligned data framed
      cases mode with
      | always =>
        refine (wp_pure _).mpr ⟨named, mapFd, maps, liveMiddle, fun marked same => ?_⟩
        obtain rfl : false = marked := by simpa using same
        exact ⟨liveMiddle, data, fun mode => (by cases mode), named ▸ framedMiddle,
          fun undo => (by cases undo), fun undo => (by cases undo)⟩
      | periodic =>
        have placed := liveMiddle.serves.placed
        have marks := @wp_markFilterLogDirty after roots middle placed data
        rw [named] at marks
        refine wp_bind (marks.mono ?_ ?_)
        · rintro ⟨marked, last⟩ final outcome
          generalize viewed : final.view roots filter.name = seen at outcome
          have finalMaps : seen.maps = final.maps := viewed ▸ rfl
          cases outcome with
          | unneeded dirty =>
            refine (wp_pure _).mpr ⟨named, mapFd, finalMaps.symm.trans maps, viewed ▸ liveMiddle, ?_⟩
            intro marked same
            obtain rfl : false = marked := by simpa using same
            rw [viewed]
            exact ⟨liveMiddle, data, fun _ => dirty, named ▸ framedMiddle, fun undo => (by cases undo),
              fun undo => (by cases undo)⟩
          | cleared clean =>
            have cleared := liveMiddle.cleared data rfl
            refine (wp_pure _).mpr ⟨named, mapFd, finalMaps.symm.trans maps, viewed ▸ cleared, ?_⟩
            intro marked same
            obtain rfl : true = marked := by simpa using same
            rw [viewed]
            refine ⟨cleared, rfl, fun _ => rfl, named ▸ framedMiddle, fun _ => ?_, fun _ aimed => ?_⟩
            · cases incomplete : middle.logHistoryIncomplete with
              | false => rfl
              | true =>
                rw [(liveMiddle.serves.inherited incomplete).2] at clean
                cases clean
            · exact (liveMiddle.remembers aimed).clean data clean
          | failed failure =>
            refine (wp_pure _).mpr ⟨named, mapFd, finalMaps.symm.trans maps, viewed ▸ liveMiddle, ?_⟩
            exact fun _ failed => (by cases failed)
        · intro final outcome
          rcases outcome with same | cleared
          · exact ⟨(congrArg View.maps same).trans maps, same ▸ named ▸ liveMiddle.onDisk⟩
          · refine ⟨(congrArg View.maps cleared).trans maps, ?_⟩
            rw [cleared]
            have disk := (liveMiddle.cleared data rfl).onDisk
            exact named ▸ disk

/-- What holds of the history once the digests that a map took in have joined it -/
def Joined (map : Nat) (before after : World) (history : List Digest)
    (good : List Digest → Prop) : Prop :=
  ∃ news, after.contents map = before.contents map ++ news ∧ good (history ++ news)

theorem Joined.trans {good : List Digest → Prop}
    (joined : Joined map before middle history fun longer => Joined map middle after longer good) :
    Joined map before after history good := by
  obtain ⟨first, grown, second, more, held⟩ := joined
  exact ⟨first ++ second, by rw [more, grown, List.append_assoc], by rwa [← List.append_assoc]⟩

theorem Joined.mono {good better : List Digest → Prop} (joined : Joined map before after history good)
    (weaker : ∀ longer, good longer → better longer) : Joined map before after history better := by
  obtain ⟨news, grown, held⟩ := joined
  exact ⟨news, grown, weaker _ held⟩

theorem Joined.same {good : List Digest → Prop} {before after : World} (maps : after.maps = before.maps)
    (held : good history) : Joined map before after history good :=
  ⟨[], by rw [World.contents, maps, List.append_nil]; rfl, by rwa [List.append_nil]⟩

theorem Joined.news {good : List Digest → Prop} (joined : Joined map before after history good) :
    good (history ++ news map before after) := by
  obtain ⟨news, grown, held⟩ := joined
  rwa [Bloomd.news, grown, List.drop_left]

theorem wp_addStaged_adding {undo : Bool}
    (adding : Adding target roots mode undo filter history (world.view roots filter.name))
    (digest : Digest) :
    wp (addStaged filter digest mode undo)
      (fun result after => result.2.name = filter.name ∧ result.2.mapFd = filter.mapFd ∧
        Joined filter.mapFd world after history fun longer =>
          Live target roots mode result.2 longer (after.view roots filter.name) ∧
          (result.1 = .ok () →
            Adding target roots mode false result.2 longer (after.view roots filter.name)))
      (fun after => Joined filter.mapFd world after history fun longer =>
        OnDisk target roots filter.name longer (after.view roots filter.name)) world := by
  have serves := adding.live.serves
  obtain ⟨log, present⟩ := serves.logged adding.data
  refine (wp_addStaged serves.placed (serves.opened adding.data) present serves.whole serves.room
    digest mode undo).mono ?_ ?_
  · intro result after addition
    obtain ⟨news, grown, live, again, named, mapFd⟩ := adding.addition present addition
    exact ⟨named, mapFd, news, grown, live, again⟩
  · intro after interrupted
    obtain ⟨news, grown, disk⟩ := adding.interrupted present interrupted
    exact ⟨news, grown, disk⟩

theorem wp_addItems_adding (marked : Bool) (digests : List Digest) :
    ∀ (anyAdded : Bool) (filter : Filter) (history : List Digest) (world : World),
      Adding target roots mode (marked && !anyAdded) filter history (world.view roots filter.name) →
      wp (addItems mode marked digests anyAdded filter)
        (fun result after => result.2.name = filter.name ∧
          Joined filter.mapFd world after history fun longer =>
            Live target roots mode result.2 longer (after.view roots filter.name))
        (fun after => Joined filter.mapFd world after history fun longer =>
          OnDisk target roots filter.name longer (after.view roots filter.name)) world := by
  induction digests with
  | nil => exact fun _ _ _ _ adding => (wp_pure _).mpr ⟨rfl, .same rfl adding.live⟩
  | cons digest rest ih =>
    intro anyAdded filter history world adding
    refine wp_bind ((wp_addStaged_adding adding digest).mono ?_ fun _ held => held)
    rintro ⟨added, middle⟩ after ⟨named, mapFd, joined⟩
    have named : middle.name = filter.name := named
    have mapFd : middle.mapFd = filter.mapFd := mapFd
    cases added with
    | error reply => exact (wp_pure _).mpr ⟨named, joined.mono fun _ held => held.1⟩
    | ok done =>
      obtain ⟨news, grown, _, again⟩ := joined
      have adding : Adding target roots mode (marked && !true) middle (history ++ news)
          (after.view roots middle.name) := by
        rw [Bool.not_true, Bool.and_false, named]
        exact again rfl
      refine (ih true middle (history ++ news) after adding).mono ?_ ?_
      · rintro result last ⟨same, joined⟩
        rw [named] at same joined
        rw [mapFd] at joined
        exact ⟨same, .trans ⟨news, grown, joined⟩⟩
      · intro last joined
        rw [named, mapFd] at joined
        exact .trans ⟨news, grown, joined⟩

theorem wp_addDigest_live
    (live : Live target roots mode filter history (world.view roots filter.name))
    (framed : target = some filter.name →
      (world.view roots filter.name).data.length % digestSize = 0) (digest : Digest) :
    wp (addDigest filter digest mode)
      (fun result after => result.2.name = filter.name ∧
        Joined filter.mapFd world after history fun longer =>
          Live target roots mode result.2 longer (after.view roots filter.name))
      (fun after => Joined filter.mapFd world after history fun longer =>
        OnDisk target roots filter.name longer (after.view roots filter.name)) world := by
  refine wp_bind ((wp_prepareAdd live framed).mono ?_ ?_)
  swap
  · rintro after ⟨maps, disk⟩
    exact .same maps disk
  · rintro ⟨prepared, middle⟩ after ⟨named, mapFd, maps, liveMiddle, ready⟩
    have named : middle.name = filter.name := named
    have mapFd : middle.mapFd = filter.mapFd := mapFd
    cases prepared with
    | error reply => exact (wp_pure _).mpr ⟨named, .same maps liveMiddle⟩
    | ok marked =>
      have adding := ready marked rfl
      rw [← named] at adding
      refine wp_bind ((wp_addStaged_adding adding digest).mono ?_ ?_)
      · rintro ⟨added, last⟩ final ⟨same, _, joined⟩
        rw [named] at same joined
        rw [mapFd] at joined
        have whole := Joined.trans (.same maps joined)
        cases added with
        | error reply => exact (wp_pure _).mpr ⟨same, whole.mono fun _ held => held.1⟩
        | ok done =>
          refine (wp_pure _).mpr ⟨same, whole.mono fun _ held => ?_⟩
          exact held.1.counted _ _ _ _ _
      · intro final joined
        rw [named, mapFd] at joined
        exact .trans (.same maps joined)

theorem wp_addBatch_live
    (live : Live target roots mode filter history (world.view roots filter.name))
    (framed : target = some filter.name →
      (world.view roots filter.name).data.length % digestSize = 0) (digests : List Digest) :
    wp (addBatch filter digests mode)
      (fun result after => result.2.name = filter.name ∧
        Joined filter.mapFd world after history fun longer =>
          Live target roots mode result.2 longer (after.view roots filter.name))
      (fun after => Joined filter.mapFd world after history fun longer =>
        OnDisk target roots filter.name longer (after.view roots filter.name)) world := by
  refine wp_bind ((wp_prepareAdd live framed).mono ?_ ?_)
  swap
  · rintro after ⟨maps, disk⟩
    exact .same maps disk
  · rintro ⟨prepared, middle⟩ after ⟨named, mapFd, maps, liveMiddle, ready⟩
    have named : middle.name = filter.name := named
    have mapFd : middle.mapFd = filter.mapFd := mapFd
    cases prepared with
    | error reply => exact (wp_pure _).mpr ⟨named, .same maps liveMiddle⟩
    | ok marked =>
      have adding : Adding target roots mode (marked && !false) middle history
          (after.view roots middle.name) := by
        rw [Bool.not_false, Bool.and_true, named]
        exact ready marked rfl
      refine wp_bind ((wp_addItems_adding marked digests false middle history after adding).mono ?_ ?_)
      · rintro ⟨added, last⟩ final ⟨same, joined⟩
        rw [named] at same joined
        rw [mapFd] at joined
        have whole := Joined.trans (.same maps joined)
        cases added with
        | error reply => exact (wp_pure _).mpr ⟨same, whole⟩
        | ok done =>
          refine (wp_pure _).mpr ⟨same, whole.mono fun _ held => ?_⟩
          exact held.counted _ _ _ _ _
      · intro final joined
        rw [named, mapFd] at joined
        exact .trans (.same maps joined)

theorem wp_syncFilterLog_live
    (live : Live target roots mode filter history (world.view roots filter.name))
    (framed : filter.logDirty = true → target = some filter.name →
      (world.view roots filter.name).data.length % digestSize = 0) (now : Nat) (force : Bool) :
    wp (syncFilterLog filter now force)
      (fun later after => Live target roots mode later history (after.view roots filter.name))
      (fun after => OnDisk target roots filter.name history (after.view roots filter.name)) world := by
  have serves := live.serves
  cases data : filter.metadata.hasData with
  | true =>
    obtain ⟨log, present⟩ := serves.logged data
    refine (wp_syncFilterLog serves.placed (serves.opened data) present now force).mono ?_ ?_
    · exact fun later after synced => live.syncedAfter present data framed synced
    · exact fun after half => live.halfSynced present data framed half
  | false =>
    unfold syncFilterLog
    split
    · exact (wp_pure _).mpr live
    · split
      · exact (wp_pure _).mpr live
      · have refuses : logBufferFlush filter.logFd filter.logBuf true =
            pure (.error .einval, filter.logBuf) := by
          rw [serves.closed data]
          rfl
        rw [refuses]
        exact wp_bind ((wp_pure _).mpr ((wp_pure _).mpr (live.counted _ _ _ _ now)))

end Work

section Views

variable {roots : Config} {name : Bytes} {before after world : World}

/-- Work on other filters shows in the maps alone. -/
theorem Apart.view (apart : Apart name before after) (roots : Config) (valid : nameIsValid name = true) :
    after.view roots name = { before.view roots name with maps := after.maps } := by
  simp only [World.view, World.fileAt, World.logAt, World.pinAt,
    apart.files _ (leaf_metaPathOf roots valid), apart.logs _ (leaf_logPathOf roots valid),
    apart.pins _ (leaf_pinPathOf roots valid)]

theorem lookup_mapValues {α : Type} (change : Loc → α → α) (table : AList (fun _ : Loc => α)) (loc : Loc) :
    (mapValues change table).lookup loc = (table.lookup loc).map (change loc) :=
  List.dlookup_map₂ loc

theorem view_reboot (surviving : Surviving) (roots : Config) (name : Bytes) :
    (world.reboot surviving).view roots name =
      { world.view roots name with
        log := (world.view roots name).log.map fun log =>
          log.reboot (surviving (resolve (roots.logPathOf name)))
        pin := none } := by
  simp [World.view, World.reboot, World.fileAt, World.logAt, World.pinAt, lookup_mapValues]

theorem view_dropPin_leaf (path : Bytes) :
    (world.dropPin path).view roots name = world.view roots name ∨
      (world.dropPin path).view roots name = { world.view roots name with pin := none } := by
  by_cases same : resolve path = resolve (roots.pinPathOf name)
  · exact Or.inr (by simp [World.view, World.fileAt, World.logAt, World.pinAt, same])
  · exact Or.inl (by
      simp [World.view, World.fileAt, World.logAt, World.pinAt, AList.lookup_erase_ne (Ne.symm same)])

variable {target : Option Bytes} {history : List Digest} {view : View}

theorem OnDisk.unpinned (disk : OnDisk target roots name history view) :
    OnDisk target roots name history { view with pin := none } := by
  intro record found
  obtain ⟨stored, kept⟩ := disk record found
  exact ⟨⟨stored.proper, stored.logged, fun _ _ there => (by cases there)⟩, fun aimed =>
    ⟨(kept aimed).fresh, fun _ _ there => (by cases there), (kept aimed).clean⟩⟩

/-- What a change of the log that keeps its durable bytes does to a filter on disk -/
theorem OnDisk.changed (disk : OnDisk target roots name history view) {change : LogFile → LogFile}
    (stable : ∀ log : LogFile, log.stable <+: (change log).stable) :
    OnDisk target roots name history { view with log := view.log.map change } := by
  refine disk.grown rfl rfl (fun present => ?_) ?_ (.refl _)
  · rw [Option.isSome_map]
    exact present
  · cases present : view.log with
    | none =>
      simp only [View.stable, present, Option.map_none]
      exact List.Subset.refl _
    | some log =>
      simp only [View.stable, present, Option.map_some, Option.getD_some]
      exact records_subset (stable log)

end Views

section Load

variable {target : Option Bytes} {roots : Config} {mode : LogSyncMode} {history : List Digest}
  {world : World} {record : FilterMeta}

/-- A filter that was just loaded -/
theorem live_loaded {map : Nat} {fd : Option Bytes} {now : Nat} {view : View}
    (placed : Placed roots record) (disk : OnDisk target roots record.name history view)
    (found : view.file = some (some record.toMetaRecord))
    (fresh : record.hasData = false → fd = none)
    (data : record.hasData = true → fd = some record.logPath)
    (pin : record.hasData = true → ∀ pinned, view.pin = some pinned → pinned = map)
    (contents : target = some record.name → history ⊆ view.contents map)
    (matched : MatchedIn record.toMetaRecord map view.maps) :
    Live target roots mode
      { loadedFilter record map with
        logFd := fd, logBuf := [], logDirty := false, lastLogSyncMs := now } history view := by
  obtain ⟨stored, kept⟩ := disk _ found
  refine ⟨{ placed := placed, file := found, proper := stored.proper, matched := matched, closed := fresh,
            logged := stored.logged, pin := pin, whole := rfl, room := Nat.zero_le _,
            opened := fun durable => ?_, inherited := fun incomplete => ?_,
            always := fun _ durable => ?_ }, fun aimed => ?_⟩
  · exact (data durable).trans (congrArg some placed.log)
  · simpa [loadedFilter, Filter.fresh] using incomplete
  · cases clean : record.logClean with
    | true => exact Or.inl clean
    | false => exact Or.inr (by
        have durable : record.hasData = true := durable
        simp [loadedFilter, durable, clean])
  · refine ⟨(kept aimed).fresh, contents aimed, (kept aimed).clean, fun durable complete _ => ?_⟩
    have durable : record.hasData = true := durable
    have clean : record.logClean = true := by simpa [loadedFilter, durable] using complete
    refine List.Subset.trans ((kept aimed).clean durable clean) (records_subset ?_)
    change view.stable <+: view.data ++ []
    obtain ⟨log, present⟩ := stored.logged durable
    rw [List.append_nil, View.stable_of present, View.data_of present]
    exact List.prefix_append _ _

theorem wp_openLoadedLog_live {map : Nat} (placed : Placed roots record)
    (disk : OnDisk target roots record.name history (world.view roots record.name))
    (found : (world.view roots record.name).file = some (some record.toMetaRecord))
    (pin : record.hasData = true → ∀ pinned,
      (world.view roots record.name).pin = some pinned → pinned = map)
    (contents : target = some record.name → history ⊆ (world.view roots record.name).contents map)
    (matched : MatchedIn record.toMetaRecord map world.maps) :
    wp (openLoadedLog (loadedFilter record map))
      (fun result last => OnDisk target roots record.name history (last.view roots record.name) ∧
        (result.1 = .ok () → result.2.name = record.name ∧
          Live target roots mode result.2 history (last.view roots record.name)))
      (fun last => OnDisk target roots record.name history (last.view roots record.name)) world := by
  unfold openLoadedLog
  cases data : record.hasData with
  | false =>
    have closed : (loadedFilter record map).metadata.hasData = false := data
    rw [if_neg (by simp [closed])]
    refine (wp_pure _).mpr ⟨disk, fun _ => ⟨rfl, ?_⟩⟩
    exact live_loaded placed disk found (fun _ => rfl) (fun durable => (by rw [data] at durable; cases durable))
      pin contents matched
  | true =>
    have durable : (loadedFilter record map).metadata.hasData = true := data
    rw [if_pos durable]
    obtain ⟨log, present⟩ := (disk _ found).1.logged data
    have same : { world.view roots record.name with
        log := some (if false = true then .empty
          else (world.view roots record.name).log.getD .empty) } = world.view roots record.name := by
      rw [present]
      exact View.with_log present
    have opens := @wp_openFilterLog world roots (loadedFilter record map) placed false
    refine opens.mono ?_ ?_
    · rintro ⟨opened, later⟩ last held
      cases opened with
      | error failure =>
        have kept : last.view roots record.name = world.view roots record.name := held.2
        refine ⟨?_, fun failed => (by cases failed)⟩
        rw [kept]
        exact disk
      | ok done =>
        obtain ⟨now, rfl, seen⟩ := held
        have kept : last.view roots record.name = world.view roots record.name := seen.trans same
        rw [kept]
        refine ⟨disk, fun _ => ⟨rfl, ?_⟩⟩
        exact live_loaded placed disk found (fun fresh => (by rw [data] at fresh; cases fresh))
          (fun _ => rfl) pin contents matched
    · rintro last (unchanged | seen)
      · have kept : last.view roots record.name = world.view roots record.name := unchanged
        rw [kept]
        exact disk
      · have kept : last.view roots record.name = world.view roots record.name := seen.trans same
        rw [kept]
        exact disk

end Load

section Create

variable {target : Option Bytes} {roots : Config} {history : List Digest} {world : World}
  {metadata : FilterMeta}

theorem Created.proper (created : Created roots metadata)
    (body : (metaBody metadata.toMetaRecord).length < 2048) :
    Proper roots metadata.name metadata.toMetaRecord where
  named := rfl
  pinPath := created.pinPath
  fits := ⟨created.placed.file ▸ created.metaFits, created.placed.log ▸ created.logFits,
    created.pinPath ▸ created.pinFits⟩
  capacity := ⟨Nat.pos_iff_ne_zero.mp created.capacity.1, created.capacity.2⟩
  hashes := created.hashes
  valueSize := created.valueSize
  passes := created.passes
  body := body

/-- A filter as CREATE leaves it has no data and no history. -/
theorem live_created (created : Created roots metadata)
    (body : (metaBody metadata.toMetaRecord).length < 2048) {view : View}
    (matched : MatchedIn metadata.toMetaRecord map view.maps) (mode : LogSyncMode) :
    Live target roots mode (.fresh metadata map) []
      { view with file := some (some metadata.toMetaRecord) } := by
  have noData : metadata.hasData = false := created.hasData
  refine ⟨{ placed := created.placed, file := rfl, proper := created.proper body, matched := matched
            whole := rfl, room := Nat.zero_le _, closed := fun _ => rfl
            opened := fun data => ?_, logged := fun data => ?_, pin := fun data => ?_
            inherited := fun incomplete => (by cases incomplete), always := fun _ data => ?_ },
    fun _ => remembers_nil _ _⟩
  all_goals
    have data : metadata.hasData = true := data
    rw [noData] at data
    cases data

/-- A file that CREATE wrote, even where the same text stood before, belongs to a
filter without history. -/
theorem renewed_written (disk : OnDisk target roots metadata.name history (world.view roots metadata.name))
    (created : Created roots metadata) (after : World)
    (written : after.view roots metadata.name =
      { world.view roots metadata.name with file := some (some metadata.toMetaRecord) })
    (aimed : target = some metadata.name) : renewed metadata.metaPath world after history = [] := by
  unfold renewed
  split
  · rename_i same
    rw [created.placed.file] at same
    have before : (world.view roots metadata.name).file = some (some metadata.toMetaRecord) :=
      same.symm.trans (congrArg View.file written)
    exact ((disk _ before).2 aimed).fresh created.hasData
  · rfl

theorem wp_metaWriteAtomic_created (created : Created roots metadata) (mode : LogSyncMode)
    (matched : MatchedIn metadata.toMetaRecord map world.maps)
    (disk : OnDisk target roots metadata.name history (world.view roots metadata.name)) :
    wp (metaWriteAtomic metadata)
      (fun result after =>
        OnDisk target roots metadata.name (renewed metadata.metaPath world after history)
          (after.view roots metadata.name) ∧
        (result = .ok () → Live target roots mode (.fresh metadata map)
          (renewed metadata.metaPath world after history) (after.view roots metadata.name)))
      (fun after => OnDisk target roots metadata.name (renewed metadata.metaPath world after history)
        (after.view roots metadata.name)) world := by
  have unchanged : ∀ after : World, after.view roots metadata.name = world.view roots metadata.name →
      OnDisk target roots metadata.name (renewed metadata.metaPath world after history)
        (after.view roots metadata.name) := by
    intro after same
    have file : after.fileAt metadata.metaPath = world.fileAt metadata.metaPath := by
      rw [created.placed.file]
      exact congrArg View.file same
    rw [renewed, if_pos file, same]
    exact disk
  by_cases long : 2048 ≤ (metaBody metadata.toMetaRecord).length
  · unfold metaWriteAtomic
    rw [if_pos long]
    exact (wp_pure _).mpr ⟨unchanged world rfl, fun failed => (by cases failed)⟩
  · have stored : ∀ after : World, after.view roots metadata.name =
        { world.view roots metadata.name with file := some (some metadata.toMetaRecord) } →
        Live target roots mode (.fresh metadata map)
          (renewed metadata.metaPath world after history) (after.view roots metadata.name) := by
      intro after written
      have empty : Live target roots mode (.fresh metadata map) [] (after.view roots metadata.name) := by
        rw [written]
        exact live_created created (Nat.not_le.mp long) matched mode
      refine ⟨empty.serves, fun aimed => ?_⟩
      rw [renewed_written disk created after written aimed]
      exact empty.remembers aimed
    refine (wp_metaWriteAtomic created.placed).mono ?_ ?_
    · intro result after held
      cases result with
      | error errno => exact ⟨unchanged after held, fun failed => (by cases failed)⟩
      | ok done => exact ⟨(stored after held).onDisk, fun _ => stored after held⟩
    · rintro after (same | written)
      · exact unchanged after same
      · exact (stored after written).onDisk

end Create

section Upkeep

/-- The invariant of all filters, with the history of the target. Additions and
syncs of the target need a log that ends with a whole record. -/
def historyUpkeep (roots : Config) (target : Option Bytes) : Upkeep roots where
  disk name history world := nameIsValid name = true →
    OnDisk target roots name history (world.view roots name)
  live mode filter history world := Live target roots mode filter history (world.view roots filter.name)
  ready name world := nameIsValid name = true → target = some name →
    (world.view roots name).data.length % digestSize = 0
  creatable _ := True
  disk_apart apart disk valid := by
    rw [apart.view roots valid]
    exact (disk valid).grown rfl rfl id (List.Subset.refl _) apart.maps
  live_apart {mode filter history before after} apart live := by
    rw [apart.view roots live.serves.placed.valid]
    refine ⟨live.serves.grown rfl rfl id apart.maps, fun aimed => ?_⟩
    have remembers := live.remembers aimed
    exact ⟨remembers.fresh, List.Subset.trans remembers.contents (View.contents_grown apart.maps _),
      remembers.clean, remembers.pending⟩
  ready_apart apart ready valid aimed := by
    rw [apart.view roots valid]
    exact ready valid aimed
  started _ disk := disk
  crash _ live _ := live.onDisk
  counted {mode filter history world} checks batches live := live.counted _ _ _ _ _
  absent valid missing _ record found := by
    have found : _ = some (some record) := found
    have missing : _ = none := missing
    rw [World.view, missing] at found
    cases found
  unpinned {name history world path} _ disk valid := by
    rcases @view_dropPin_leaf roots name world path with same | dropped
    · rw [same]
      exact disk valid
    · rw [dropped]
      exact (disk valid).unpinned
  live_unpinned {mode filter history world} _ live := by
    rw [live.serves.proper.pinPath, World.view_dropPin]
    refine ⟨{ live.serves with pin := fun _ _ there => (by cases there) }, fun aimed => ?_⟩
    have remembers := live.remembers aimed
    exact ⟨remembers.fresh, remembers.contents, remembers.clean, remembers.pending⟩
  live_pinned {mode filter history world} _ data live := by
    rw [live.serves.proper.pinPath, World.view_setPin]
    refine ⟨{ live.serves with pin := fun _ _ there => (Option.some.inj there).symm }, fun aimed => ?_⟩
    have remembers := live.remembers aimed
    exact ⟨remembers.fresh, remembers.contents, remembers.clean, remembers.pending⟩
  appended chunk _ disk valid := by
    rw [World.view_changeLog]
    exact (disk valid).changed fun _ => List.prefix_refl _
  synced _ disk valid := by
    rw [World.view_changeLog]
    exact (disk valid).changed fun _ => List.prefix_append _ _
  rebooted surviving _ disk valid := by
    rw [view_reboot]
    exact ((disk valid).changed fun _ => List.prefix_append _ _).unpinned
  add {mode filter history world} digest settled live ready := by
    have framed := ready live.serves.placed.valid
    refine (wp_addDigest_live live framed digest).mono ?_ fun _ joined _ => joined.news
    rintro result after ⟨named, joined⟩
    rw [named]
    exact joined.news
  batch {mode filter history world} digests settled live ready := by
    have framed := ready live.serves.placed.valid
    refine (wp_addBatch_live live framed digests).mono ?_ fun _ joined _ => joined.news
    rintro result after ⟨named, joined⟩
    rw [named]
    exact joined.news
  sync {mode filter history world} now force settled live ready := by
    have framed := fun dirty => ready dirty live.serves.placed.valid
    have syncs := wp_within filter.name (keeps_syncFilterLog settled.seated now force)
      (wp_syncFilterLog_live live framed now force)
    refine syncs.mono ?_ fun _ held _ => held.1
    rintro later after ⟨live, follows, _⟩
    rw [follows.name]
    exact live
  create mode {metadata map history world} _ created settled disk := by
    have valid : nameIsValid metadata.name = true := created.placed.valid
    refine (wp_metaWriteAtomic_created created mode settled.matched (disk valid)).mono ?_
      fun _ held _ => held
    exact fun result after held => ⟨fun _ => held.1, held.2⟩
  unlogged {mode metadata map history world} created live valid := by
    rw [created.placed.log, World.view_dropLog]
    intro record found
    obtain ⟨stored, kept⟩ := live.onDisk record found
    have same : metadata.toMetaRecord = record := by
      have both : some (some metadata.toMetaRecord) = some (some record) :=
        live.serves.file.symm.trans found
      simpa using both
    have noData : record.hasData = false := same ▸ created.hasData
    refine ⟨⟨stored.proper, fun data => ?_, stored.pinned⟩, fun aimed =>
      ⟨(kept aimed).fresh, (kept aimed).pinned, fun data => ?_⟩⟩
    · rw [noData] at data
      cases data
    · rw [noData] at data
      cases data
  load mode {name history world written record} named disk present readable same pin under := by
    subst same
    have disk := disk named
    obtain rfl : record = written :=
      readBack_under_root named (disk written present).1.proper.pinPath readable under
    obtain ⟨stored, _⟩ := disk record present
    let loaded : FilterMeta := { record with
      metaPath := roots.metaPathOf record.name, logPath := roots.logPathOf record.name }
    have placed : Placed roots loaded := ⟨named, rfl, rfl, pin⟩
    have opens := @wp_openOrRebuild world (roots.withMode mode) loaded (placed.withMode mode) stored.proper.pinPath
      stored.logged
    refine opens.mono ?_ fun after prepared _ => disk.prepared prepared
    intro opened after opening
    have stands : (world.view roots record.name).file = some (some loaded.toMetaRecord) := present
    have outcome := disk.opening stands opening
    refine ⟨fun _ => outcome.1, ?_⟩
    cases opened with
    | stale => trivial
    | failed failure => trivial
    | map other map unpinOnError =>
      obtain ⟨disk, file, rfl, pinned, contents⟩ := outcome
      intro matched
      have found : (after.view roots record.name).file = some (some loaded.toMetaRecord) :=
        file.trans present
      have opensLog := @wp_openLoadedLog_live target roots mode history after loaded map placed disk
        found pinned contents matched
      refine opensLog.mono ?_ fun _ held _ => held
      rintro result last ⟨disk, live⟩
      refine ⟨fun _ => disk, fun opened => ?_⟩
      obtain ⟨same, live⟩ := live opened
      rw [same]
      exact live

end Upkeep

section Recovery

/-- Restarts change the sync mode but not the roots. -/
def Action.KeepsRoots (roots : Config) : Action → Prop
  | .restart _ config _ _ => config = roots.withMode config.logSyncMode
  | _ => True

/-- A step that may write digests of the filter finds its log with a whole number
of records. -/
def Framed (roots : Config) (name : Bytes) (state : State) : Action → Prop
  | .request (.add other _) _ | .request (.madd other _) _ => other = name →
      (state.world.logBytes (roots.logPathOf name)).length % digestSize = 0
  | .sync _ _ _ | .shutdown _ _ => ∀ daemon, state.daemon = some daemon →
      ∀ filter ∈ daemon.set.items, filter.name = name → filter.logDirty = true →
        (state.world.logBytes (roots.logPathOf name)).length % digestSize = 0
  | _ => True

/-- All steps of a run are framed in the states they start from. -/
def FramedRun [Libm] (roots : Config) (name : Bytes) : State → List Action → Prop
  | _, [] => True
  | state, action :: rest => Framed roots name state action ∧ FramedRun roots name (state.step action) rest

theorem permitted_of_framed [Libm] {roots : Config} {name : Bytes} {state : State} {actions : List Action}
    (rooted : ∀ action ∈ actions, action.KeepsRoots roots) (framed : FramedRun roots name state actions) :
    Permitted (historyUpkeep roots (some name)) state actions := by
  induction actions generalizing state with
  | nil => trivial
  | cons action rest ih =>
    obtain ⟨step, framed⟩ := framed
    refine ⟨?_, ih (fun other member => rooted other (List.mem_cons_of_mem _ member)) framed⟩
    have own := rooted action List.mem_cons_self
    cases action with
    | request request answers =>
      cases request with
      | create request => trivial
      | add other payload => exact fun _ aimed => Option.some.inj aimed ▸ step (Option.some.inj aimed).symm
      | check other payload => trivial
      | madd other payloads => exact fun _ aimed => Option.some.inj aimed ▸ step (Option.some.inj aimed).symm
      | mcheck other payloads => trivial
      | drop other => trivial
    | sync now force answers =>
      intro daemon running filter member dirty _ aimed
      have same : name = filter.name := Option.some.inj aimed
      exact same ▸ step daemon running filter member same.symm dirty
    | shutdown now answers =>
      intro daemon running filter member dirty _ aimed
      have same : name = filter.name := Option.some.inj aimed
      exact same ▸ step daemon running filter member same.symm dirty
    | restart env config pid answers => exact own
    | kill => trivial
    | reboot surviving => trivial

/-- A served filter holds everything that was added to it, and metadata that say
`has_data=1` and `log_clean=1` stand for a log whose durable records are all of it. -/
def NothingLost (roots : Config) (name : Bytes) (state : State) : Prop :=
  (∀ daemon, state.daemon = some daemon → ∀ filter ∈ daemon.set.items, filter.name = name →
    state.added name ⊆ state.world.contents filter.mapFd) ∧
  (∀ record, state.world.fileAt (roots.metaPathOf name) = some (some record) →
    record.hasData = true → record.logClean = true → state.added name ⊆
      Framing.records digestSize
        (((state.world.logAt (roots.logPathOf name)).map LogFile.stable).getD []))

/-- No false negatives across recovery, in every run from empty roots that never
appends to a torn log of the filter. -/
theorem framed_run_loses_nothing [Libm] {roots : Config} {name : Bytes} {actions : List Action}
    (valid : nameIsValid name = true) (rooted : ∀ action ∈ actions, action.KeepsRoots roots)
    (framed : FramedRun roots name State.initial actions) :
    NothingLost roots name (State.initial.run actions) := by
  have tidy := (tidy_initial (historyUpkeep roots (some name))).run (permitted_of_framed rooted framed)
  constructor
  · intro daemon running filter member named
    subst named
    unfold Tidy at tidy
    rw [running] at tidy
    exact ((tidy.tended.live filter member).remembers rfl).contents
  · intro record found data clean
    exact ((tidy.resting name valid valid record found).2 rfl).clean data clean

/-- One digest is added, the machine reboots, and the daemon starts again. -/
def rebootedRun : List Action :=
  [.restart .plain demoRoots 7 plenty, .request demoCreate plenty,
    .request (.add demoName (bytes "a")) plenty, .reboot fun _ => [], .restart .plain demoRoots 9 plenty]

theorem framed_run_loses_nothing_rebooted :
    NothingLost demoRoots demoName (@State.run exactLibm .initial rebootedRun) ∧
      (@State.run exactLibm .initial rebootedRun).added demoName = [digestPayload (bytes "a")] := by
  refine ⟨@framed_run_loses_nothing exactLibm demoRoots demoName rebootedRun (by decide) ?_ ?_,
    by decide +kernel⟩
  · intro action member
    simp only [rebootedRun, List.mem_cons, List.not_mem_nil, or_false] at member
    rcases member with rfl | rfl | rfl | rfl | rfl
    · rfl
    · trivial
    · trivial
    · trivial
    · rfl
  · exact ⟨trivial, trivial, fun _ => by decide +kernel, trivial, trivial, trivial⟩

/-- A full disk tears the record of `b`, the record of `c` follows the torn bytes,
and after a reboot the map is rebuilt without `c`. -/
def tornRun : List Action :=
  [.restart .plain demoRoots 7 plenty, .request demoCreate plenty,
    .request (.add demoName (bytes "a")) plenty,
    .request (.add demoName (bytes "b")) [.ok, .count 5, .fail .enospc],
    .request (.add demoName (bytes "c")) plenty, .reboot fun _ => [], .restart .plain demoRoots 9 plenty]

theorem torn_run_loses_digest :
    (∀ action ∈ tornRun, action.KeepsRoots demoRoots) ∧
      ¬ NothingLost demoRoots demoName (@State.run exactLibm .initial tornRun) := by
  refine ⟨?_, fun kept => ?_⟩
  · intro action member
    simp only [tornRun, List.mem_cons, List.not_mem_nil, or_false] at member
    rcases member with rfl | rfl | rfl | rfl | rfl | rfl | rfl
    · rfl
    · trivial
    · trivial
    · trivial
    · trivial
    · trivial
    · rfl
  · have served : (@State.run exactLibm .initial tornRun).daemon.map
        (fun daemon => daemon.set.items.map fun filter => (filter.name, filter.mapFd)) =
        some [(demoName, 1)] := by decide +kernel
    obtain ⟨daemon, running, items⟩ := Option.map_eq_some_iff.mp served
    obtain ⟨filter, single, pair⟩ := List.map_eq_singleton_iff.mp items
    obtain ⟨named, map⟩ := Prod.mk.inj pair
    have held := kept.1 daemon running filter (by rw [single]; exact List.mem_singleton_self _) named
    rw [map] at held
    have lost : digestPayload (bytes "c") ∈ (@State.run exactLibm .initial tornRun).added demoName ∧
        digestPayload (bytes "c") ∉ (@State.run exactLibm .initial tornRun).world.contents 1 := by
      decide +kernel
    exact lost.2 (held lost.1)

end Recovery

end Bloomd
