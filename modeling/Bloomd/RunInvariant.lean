import Bloomd.FilterSetSemantics
import Bloomd.MetadataSemantics
import Bloomd.System

/-! How a property of single filters is carried through whole runs. An `Upkeep`
says what holds of a filter on disk and of a filter in memory, and that the work
done for that filter keeps it; every step of the system then keeps it for all
filters, because work on one filter leaves the others alone. -/

namespace Bloomd

open CrashLogic Prog

def Config.withMode (roots : Config) (mode : LogSyncMode) : Config :=
  { roots with logSyncMode := mode }

theorem Placed.withMode (placed : Placed roots metadata) (mode : LogSyncMode) :
    Placed (roots.withMode mode) metadata := ⟨placed.valid, placed.file, placed.log, placed.pin⟩

theorem Placed.ofMode (placed : Placed (roots.withMode mode) metadata) : Placed roots metadata :=
  ⟨placed.valid, placed.file, placed.log, placed.pin⟩

/-- The parameters of a kernel map as a record demands them -/
structure Matching (record : MetaRecord) (info : MapInfo) : Prop where
  type : info.type = bloomFilterMapType
  keySize : info.keySize = 0
  valueSize : info.valueSize = record.valueSize
  maxEntries : info.maxEntries = record.capacity
  mapExtra : info.mapExtra &&& 0x0f = record.hashes

def MatchedIn (record : MetaRecord) (map : Nat) (maps : List KernelMap) : Prop :=
  ∃ kernel, maps[map]? = some kernel ∧ Matching record kernel.info

abbrev Matched (record : MetaRecord) (map : Nat) (world : World) : Prop := MatchedIn record map world.maps

theorem MatchedIn.grown (matched : MatchedIn record map before) (grown : Grown before after) :
    MatchedIn record map after := by
  obtain ⟨kernel, found, matching⟩ := matched
  obtain ⟨later, foundLater, same, _⟩ := grown map kernel found
  exact ⟨later, foundLater, same ▸ matching⟩

theorem MatchedIn.bound (matched : MatchedIn record map maps) : map < maps.length := by
  obtain ⟨kernel, found, _⟩ := matched
  exact (List.getElem?_eq_some_iff.mp found).1

/-- A filter in its place with a map of its parameters -/
structure Settled (roots : Config) (filter : Filter) (world : World) : Prop where
  seated : Seated roots filter
  matched : Matched filter.metadata.toMetaRecord filter.mapFd world

theorem Settled.follows (settled : Settled roots filter before)
    (follows : Follows roots filter later) (grown : Grown before.maps after.maps) :
    Settled roots later after := by
  refine ⟨follows.seated, ?_⟩
  obtain ⟨kernel, found, matching⟩ := settled.matched.grown grown
  refine ⟨kernel, by rw [follows.mapFd]; exact found, ?_⟩
  rw [follows.metadata]
  exact ⟨matching.type, matching.keySize, matching.valueSize, matching.maxEntries, matching.mapExtra⟩

/-- A pooled map serves every record with its parameters. -/
def PooledMap.Usable (pooled : PooledMap) (world : World) : Prop :=
  ∀ record : MetaRecord, record.capacity = pooled.capacity → record.hashes = pooled.hashes →
    record.valueSize = pooled.valueSize → Matched record pooled.mapFd world

/-- Metadata as CREATE makes it -/
structure Created (roots : Config) (metadata : FilterMeta) : Prop where
  placed : Placed roots metadata
  pinPath : metadata.pinPath = roots.pinPathOf metadata.name
  metaFits : metadata.metaPath.length < pathMax
  logFits : metadata.logPath.length < pathMax
  pinFits : metadata.pinPath.length < pathMax
  capacity : 0 < metadata.capacity ∧ metadata.capacity < 2 ^ 32
  hashes : metadata.hashes ≤ 15
  valueSize : metadata.valueSize = digestSize
  passes : metadata.toMetaRecord.isValid = true
  hasData : metadata.hasData = false
  logClean : metadata.logClean = true

/-- What a map took in between two worlds -/
def news (map : Nat) (before after : World) : List Digest :=
  (after.contents map).drop (before.contents map).length

/-- The history of a name after a CREATE -/
def renewed (path : Bytes) (before after : World) (history : List Digest) : List Digest :=
  if after.fileAt path = before.fileAt path then history else []

/-- A property of single filters that the work on them keeps. `disk` speaks of
a filter that no daemon holds, `live` of one in memory; both may depend on the
digests that were added to the filter. `ready` is what additions and syncs need
of the world they start in. -/
structure Upkeep (roots : Config) where
  disk : Bytes → List Digest → World → Prop
  live : LogSyncMode → Filter → List Digest → World → Prop
  ready : Bytes → World → Prop
  creatable : Bytes → Prop
  disk_apart : ∀ {name history before after},
    Apart name before after → disk name history before → disk name history after
  live_apart : ∀ {mode filter history before after},
    Apart filter.name before after → live mode filter history before → live mode filter history after
  ready_apart : ∀ {name before after}, Apart name before after → ready name before → ready name after
  started : ∀ {name history world} pid, disk name history world →
    disk name history { world with pid }
  crash : ∀ {mode filter history world}, Settled roots filter world →
    live mode filter history world → disk filter.name history world
  counted : ∀ {mode filter history world} checks batches, live mode filter history world →
    live mode { filter with checkCalls := checks, batchCheckCalls := batches } history world
  absent : ∀ {name history world}, nameIsValid name = true →
    world.fileAt (roots.metaPathOf name) = none → disk name history world
  unpinned : ∀ {name history world path}, (resolve path).leaf = name →
    disk name history world → disk name history (world.dropPin path)
  live_unpinned : ∀ {mode filter history world}, Settled roots filter world →
    live mode filter history world →
      live mode filter history (world.dropPin filter.metadata.pinPath)
  live_pinned : ∀ {mode filter history world}, Settled roots filter world →
    filter.metadata.hasData = true → live mode filter history world →
      live mode filter history (world.setPin filter.metadata.pinPath filter.mapFd)
  appended : ∀ {name history world} chunk, nameIsValid name = true → disk name history world →
    disk name history (world.changeLog (roots.logPathOf name) (·.append chunk))
  synced : ∀ {name history world}, nameIsValid name = true → disk name history world →
    disk name history (world.changeLog (roots.logPathOf name) LogFile.synced)
  rebooted : ∀ {name history world} surviving, nameIsValid name = true → disk name history world →
    disk name history (world.reboot surviving)
  add : ∀ {mode filter history world} digest, Settled roots filter world →
    live mode filter history world → ready filter.name world →
      wp (addDigest filter digest mode)
        (fun result after => live mode result.2 (history ++ news filter.mapFd world after) after)
        (fun after => disk filter.name (history ++ news filter.mapFd world after) after) world
  batch : ∀ {mode filter history world} digests, Settled roots filter world →
    live mode filter history world → ready filter.name world →
      wp (addBatch filter digests mode)
        (fun result after => live mode result.2 (history ++ news filter.mapFd world after) after)
        (fun after => disk filter.name (history ++ news filter.mapFd world after) after) world
  sync : ∀ {mode filter history world} now force, Settled roots filter world →
    live mode filter history world → (filter.logDirty = true → ready filter.name world) →
      wp (syncFilterLog filter now force) (fun later after => live mode later history after)
        (fun after => disk filter.name history after) world
  create : ∀ mode {metadata map history world}, creatable metadata.name → Created roots metadata →
    Settled roots (.fresh metadata map) world → disk metadata.name history world →
      wp (metaWriteAtomic metadata)
        (fun result after =>
          disk metadata.name (renewed metadata.metaPath world after history) after ∧
          (result = .ok () →
            live mode (.fresh metadata map) (renewed metadata.metaPath world after history) after))
        (fun after => disk metadata.name (renewed metadata.metaPath world after history) after) world
  unlogged : ∀ {mode metadata map history world}, Created roots metadata →
    live mode (.fresh metadata map) history world →
      disk metadata.name history (world.dropLog metadata.logPath)
  load : ∀ mode {name history world stored record}, nameIsValid name = true →
    disk name history world → world.fileAt (roots.metaPathOf name) = some (some stored) →
    stored.readBack = some record → record.name = name → (resolve record.pinPath).leaf = name →
    pathUnderRoot record.pinPath roots.pinRoot = true →
      wp (openOrRebuild (roots.withMode mode)
          { record with metaPath := roots.metaPathOf name, logPath := roots.logPathOf name })
        (fun opened after => disk name history after ∧ match opened with
          | .map loaded map _ => Matched loaded.toMetaRecord map after →
              wp (openLoadedLog (loadedFilter loaded map))
                (fun result last => disk name history last ∧
                  (result.1 = .ok () → live mode result.2 history last))
                (disk name history) after
          | _ => True)
        (disk name history) world

/-- The upkeep that asks for nothing. What is left of the invariant of a run is that
filters are in their places, with maps of their parameters and different names. -/
def anyUpkeep (roots : Config) : Upkeep roots where
  disk _ _ _ := True
  live _ _ _ _ := True
  ready _ _ := True
  creatable _ := True
  disk_apart _ _ := trivial
  live_apart _ _ := trivial
  ready_apart _ _ := trivial
  started _ _ := trivial
  crash _ _ := trivial
  counted _ _ _ := trivial
  absent _ _ := trivial
  unpinned _ _ := trivial
  live_unpinned _ _ := trivial
  live_pinned _ _ _ := trivial
  appended _ _ _ := trivial
  synced _ _ := trivial
  rebooted _ _ _ := trivial
  add _ _ _ _ := wp_trivial _
  batch _ _ _ _ := wp_trivial _
  sync _ _ _ _ _ := wp_trivial _
  create := by
    intros
    exact (wp_trivial _).mono (fun _ _ _ => ⟨trivial, fun _ => trivial⟩) fun _ held => held
  unlogged _ _ := trivial
  load := by
    intros
    refine (wp_trivial _).mono ?_ fun _ held => held
    intro opened after _
    refine ⟨trivial, ?_⟩
    cases opened with
    | map record map unpinOnError =>
      intro _
      exact (wp_trivial _).mono (fun _ _ _ => ⟨trivial, fun _ => trivial⟩) fun _ held => held
    | stale => trivial
    | failed failure => trivial

section

variable {roots : Config} (upkeep : Upkeep roots)

/-- All filters are kept: those in memory and, on disk, those that no filter in
memory stands for. -/
structure Tended (mode : LogSyncMode) (items : List Filter) (added : Bytes → List Digest)
    (world : World) : Prop where
  settled : ∀ filter ∈ items, Settled roots filter world
  unique : (items.map Filter.name).Nodup
  live : ∀ filter ∈ items, upkeep.live mode filter (added filter.name) world
  disk : ∀ name, nameIsValid name = true → (∀ filter ∈ items, filter.name ≠ name) →
    upkeep.disk name (added name) world

/-- What is left of all filters when no daemon runs -/
def Resting (added : Bytes → List Digest) (world : World) : Prop :=
  ∀ name, nameIsValid name = true → upkeep.disk name (added name) world

/-- A running daemon keeps its filters, and its pool is usable. -/
structure Serving (daemon : Daemon) (added : Bytes → List Digest) (world : World) : Prop where
  config : daemon.config = roots.withMode daemon.config.logSyncMode
  pool : ∀ pooled ∈ daemon.pool, pooled.Usable world
  tended : Tended upkeep daemon.config.logSyncMode daemon.set.items added world

/-- The invariant of a run -/
def Tidy (state : State) : Prop :=
  match state.daemon with
  | none => Resting upkeep state.added state.world
  | some daemon => Serving upkeep daemon state.added state.world

/-- What a step needs: the roots stay, additions and syncs find their filters
ready, and only creatable names are created. -/
def Allowed (state : State) : Action → Prop
  | .request (.create request) _ => upkeep.creatable request.name
  | .request (.add name _) _ | .request (.madd name _) _ => upkeep.ready name state.world
  | .sync _ _ _ | .shutdown _ _ => ∀ daemon, state.daemon = some daemon →
      ∀ filter ∈ daemon.set.items, filter.logDirty = true → upkeep.ready filter.name state.world
  | .restart _ config _ _ => config = roots.withMode config.logSyncMode
  | _ => True

/-- All steps of a run are allowed in the states they start from. -/
def Permitted [Libm] : State → List Action → Prop
  | _, [] => True
  | state, action :: rest => Allowed upkeep state action ∧ Permitted (state.step action) rest

variable {upkeep} {mode : LogSyncMode} {items : List Filter} {added : Bytes → List Digest}
  {world : World}

theorem Tended.crash (tended : Tended upkeep mode items added world) :
    Resting upkeep added world := by
  intro name valid
  by_cases served : ∃ filter ∈ items, filter.name = name
  · obtain ⟨filter, member, rfl⟩ := served
    exact upkeep.crash (tended.settled filter member) (tended.live filter member)
  · exact tended.disk name valid fun filter member same => served ⟨filter, member, same⟩

/-- Work that touches no filter -/
theorem Tended.apart (tended : Tended upkeep mode items added world)
    (apart : ∀ name, Apart name world after) : Tended upkeep mode items added after where
  settled filter member := (tended.settled filter member).follows
    (.refl (tended.settled filter member).seated) (apart filter.name).maps
  unique := tended.unique
  live filter member := upkeep.live_apart (apart filter.name) (tended.live filter member)
  disk name valid missing := upkeep.disk_apart (apart name) (tended.disk name valid missing)

/-- A crash in the work on one filter -/
theorem Resting.within {history : Bytes → List Digest} (resting : Resting upkeep added world)
    (within : Within name world after) (others : ∀ other, other ≠ name → history other = added other)
    (own : upkeep.disk name (history name) after) : Resting upkeep history after := by
  intro other valid
  by_cases same : other = name
  · subst same
    exact own
  · rw [others other same]
    exact upkeep.disk_apart (within.apart same) (resting other valid)

theorem exists_of_forall₂_right {α β : Type} {related : α → β → Prop} {left : List α} {right : List β}
    (pairs : List.Forall₂ related left right) {b : β} (member : b ∈ right) : ∃ a ∈ left, related a b := by
  induction pairs with
  | nil => cases member
  | cons head tail ih =>
    rcases List.mem_cons.mp member with rfl | inside
    · exact ⟨_, List.mem_cons_self, head⟩
    · obtain ⟨a, known, pair⟩ := ih inside
      exact ⟨a, List.mem_cons_of_mem _ known, pair⟩

theorem exists_of_forall₂_left {α β : Type} {related : α → β → Prop} {left : List α} {right : List β}
    (pairs : List.Forall₂ related left right) {a : α} (member : a ∈ left) : ∃ b ∈ right, related a b :=
  exists_of_forall₂_right pairs.flip member

/-- A change in place that keeps what is looked at -/
theorem map_set_same {β : Type} (look : Filter → β) {filter later : Filter} (found : items[index]? = some filter)
    (same : look later = look filter) : (items.set index later).map look = items.map look := by
  have there : (items.map look)[index]? = some (look later) := by
    rw [List.getElem?_map, found, same]
    rfl
  rw [List.map_set]
  obtain ⟨mapped, equal⟩ := List.getElem?_eq_some_iff.mp there
  rw [← equal, List.set_getElem_self]

/-- A filter of the changed list is the new one or has another name. -/
theorem mem_set_cases {filter later other : Filter} (unique : (items.map Filter.name).Nodup)
    (found : items[index]? = some filter) (member : other ∈ items.set index later) :
    other = later ∨ (other ∈ items ∧ other.name ≠ filter.name) := by
  obtain ⟨position, there⟩ := List.mem_iff_getElem?.mp member
  by_cases same : index = position
  · subst same
    rw [List.getElem?_set_self (List.getElem?_eq_some_iff.mp found).1] at there
    exact Or.inl (Option.some.inj there).symm
  · rw [List.getElem?_set_ne same] at there
    exact Or.inr ⟨List.mem_of_getElem? there, fun equal =>
      same (index_of_name unique found there equal.symm)⟩

/-- Work on one filter of the set, in place -/
theorem Tended.replace {history : Bytes → List Digest} {filter later : Filter}
    (tended : Tended upkeep mode items added world) (found : items[index]? = some filter)
    (within : Within filter.name world after) (follows : Follows roots filter later)
    (others : ∀ other, other ≠ filter.name → history other = added other)
    (own : upkeep.live mode later (history filter.name) after) :
    Tended upkeep mode (items.set index later) history after where
  settled other member := by
    rcases mem_set_cases tended.unique found member with rfl | ⟨old, _⟩
    · exact (tended.settled filter (List.mem_of_getElem? found)).follows follows within.maps
    · exact (tended.settled other old).follows (.refl (tended.settled other old).seated) within.maps
  unique := by
    rw [map_set_same Filter.name found follows.name]
    exact tended.unique
  live other member := by
    rcases mem_set_cases tended.unique found member with rfl | ⟨old, different⟩
    · rw [follows.name]
      exact own
    · rw [others _ different]
      exact upkeep.live_apart (within.apart different) (tended.live other old)
  disk name valid missing := by
    have served : later.name ≠ name :=
      missing later (List.mem_set (List.getElem?_eq_some_iff.mp found).1 later)
    have different : name ≠ filter.name := fun same => served (follows.name.trans same.symm)
    rw [others name different]
    refine upkeep.disk_apart (within.apart different) (tended.disk name valid ?_)
    intro other member same
    obtain ⟨position, there⟩ := List.mem_iff_getElem?.mp member
    by_cases equal : index = position
    · subst equal
      rw [found] at there
      obtain rfl := Option.some.inj there
      exact different same.symm
    · refine missing other (List.mem_iff_getElem?.mpr ⟨position, ?_⟩) same
      rw [List.getElem?_set_ne equal, there]

/-- A new filter at the end of the set -/
theorem Tended.push {history : Bytes → List Digest} {filter : Filter}
    (tended : Tended upkeep mode items added world)
    (missing : ∀ other ∈ items, other.name ≠ filter.name)
    (within : Within filter.name world after) (settled : Settled roots filter after)
    (others : ∀ other, other ≠ filter.name → history other = added other)
    (own : upkeep.live mode filter (history filter.name) after) :
    Tended upkeep mode (items ++ [filter]) history after where
  settled other member := by
    rcases List.mem_append.mp member with old | new
    · exact (tended.settled other old).follows (.refl (tended.settled other old).seated) within.maps
    · rw [List.mem_singleton.mp new]
      exact settled
  unique := by
    rw [List.map_append, List.nodup_append]
    refine ⟨tended.unique, by simp, ?_⟩
    intro name old other new same
    obtain ⟨before, member, rfl⟩ := List.mem_map.mp old
    obtain rfl : other = filter.name := by simpa using new
    exact missing before member same
  live other member := by
    rcases List.mem_append.mp member with old | new
    · rw [others _ (missing other old)]
      exact upkeep.live_apart (within.apart (missing other old)) (tended.live other old)
    · rw [List.mem_singleton.mp new]
      exact own
  disk name valid unserved := by
    have different : name ≠ filter.name := fun same =>
      unserved filter (List.mem_append_right _ (List.mem_singleton_self filter)) same.symm
    rw [others name different]
    exact upkeep.disk_apart (within.apart different)
      (tended.disk name valid fun other member => unserved other (List.mem_append_left _ member))

/-- Work on a name that no filter in memory has -/
theorem Tended.beside {history : Bytes → List Digest} (tended : Tended upkeep mode items added world)
    (missing : ∀ other ∈ items, other.name ≠ name) (within : Within name world after)
    (others : ∀ other, other ≠ name → history other = added other)
    (own : nameIsValid name = true → upkeep.disk name (history name) after) :
    Tended upkeep mode items history after where
  settled other member :=
    (tended.settled other member).follows (.refl (tended.settled other member).seated) within.maps
  unique := tended.unique
  live other member := by
    rw [others _ (missing other member)]
    exact upkeep.live_apart (within.apart (missing other member)) (tended.live other member)
  disk other valid unserved := by
    by_cases same : other = name
    · subst same
      exact own valid
    · rw [others other same]
      exact upkeep.disk_apart (within.apart same) (tended.disk other valid unserved)

/-- The removal of a filter whose metadata file is gone -/
theorem Tended.remove {filter : Filter} (tended : Tended upkeep mode items added world)
    (found : items[index]? = some filter) (within : Within filter.name world after)
    (own : upkeep.disk filter.name (added filter.name) after) :
    Tended upkeep mode (items.eraseIdx index) added after where
  settled other member := by
    have old := List.mem_of_mem_eraseIdx member
    exact (tended.settled other old).follows (.refl (tended.settled other old).seated) within.maps
  unique := tended.unique.sublist ((List.eraseIdx_sublist items index).map Filter.name)
  live other member := by
    obtain ⟨position, there, apart⟩ := List.mem_eraseIdx_iff_getElem?.mp member
    have different : other.name ≠ filter.name := fun same =>
      there (index_of_name tended.unique apart found same)
    exact upkeep.live_apart (within.apart different)
      (tended.live other (List.mem_of_mem_eraseIdx member))
  disk name valid unserved := by
    by_cases same : name = filter.name
    · subst same
      exact own
    · refine upkeep.disk_apart (within.apart same) (tended.disk name valid ?_)
      intro other member equal
      obtain ⟨position, there⟩ := List.mem_iff_getElem?.mp member
      by_cases removed : position = index
      · subst removed
        rw [found] at there
        obtain rfl := Option.some.inj there
        exact same equal.symm
      · exact unserved other (List.mem_eraseIdx_iff_getElem?.mpr ⟨position, removed, there⟩) equal

end

end Bloomd
