import Bloomd.BatchSemantics
import Bloomd.FilterView
import Bloomd.ServerCounters

/-! A CREATE or DROP that answers with an error takes its steps back: the filters, their
metadata files, pins, logs and maps are as they were before the request. -/

namespace Bloomd

open CrashLogic Prog

section Noted

/-- `handleCreate` up to its first lasting step: an answer, or the filter to install -/
def admitCreate [Libm] (daemon : Daemon) (request : CreateRequest) : Sys (Except Reply Filter × Daemon) :=
  if !nameIsValid request.name then pure (.error (.error .name .parse "invalid name"), daemon)
  else if request.capacity = 0 ∨ 2 ^ 32 ≤ request.capacity ∨ 15 < request.hashes ∨
      !rateInRange request.errorRate then
    pure (.error (.error .badRequest .range "invalid capacity, error_rate, or hashes"), daemon)
  else
    let (found, set) := daemon.set.findN request.name
    let daemon := { daemon with set }
    if found.isSome then pure (.error (.error .exists .none "filter already exists"), daemon)
    else
      match assignFilterPaths daemon.config (newFilterMeta request) with
      | .error _ => pure (.error (.error .internal .none "failed to build filter paths"), daemon)
      | .ok metadata => do
        let (taken, daemon) := takeEmptyMap daemon metadata.capacity metadata.hashes metadata.valueSize
        match taken with
        | some map => pure (.ok (Filter.fresh metadata map), daemon)
        | none =>
          match ← bpfCreateMap metadata.capacity metadata.hashes with
          | .error failure =>
            if failure.errno = .eperm then
              pure (.error (.error .perm .bpfPrivs failure.message), daemon)
            else pure (.error (.error .bpf .unsupportedKernel failure.message), daemon)
          | .ok map => pure (.ok (Filter.fresh metadata map), daemon)

/-- `installFilter`, with a note whether its clean-up, if there was one, removed the
metadata file -/
def installNoted (daemon : Daemon) (filter : Filter) : Sys (Bool × Reply × Daemon) := do
  match ← metaWriteAtomic filter.metadata with
  | .error _ => pure (true, .error .io .metadata "failed to write metadata", daemon)
  | .ok () =>
    match ← filterSetAdd daemon.set filter with
    | .error _ => do
      let removed ← metaDelete filter.metadata.metaPath
      let _ ← logDelete filter.metadata.logPath
      let _ ← bpfUnpin filter.metadata.pinPath
      pure (removed.isOk, .error .internal .none "too many filters", daemon)
    | .ok set => pure (true, .ok [], { daemon with
        set
        stats := { daemon.stats with filtersCreated := daemon.stats.filtersCreated + 1 } })

def createNoted [Libm] (daemon : Daemon) (request : CreateRequest) : Sys (Bool × Reply × Daemon) := do
  match ← admitCreate daemon request with
  | (.error reply, daemon) => pure (true, reply, daemon)
  | (.ok filter, daemon) => installNoted daemon filter

/-- `dropMetadata`, with a note whether its re-pin, if there was one, succeeded -/
def dropMetadataNoted (filter : Filter) : Sys (Bool × Except Reply Unit) := do
  match ← metaDelete filter.metadata.metaPath with
  | .error _ => do
    if filter.metadata.hasData then
      let pinned ← bpfPinMap filter.mapFd filter.metadata.pinPath
      pure (pinned.isOk, .error (.error .io .metadata "failed to remove metadata"))
    else pure (true, .error (.error .io .metadata "failed to remove metadata"))
  | .ok () => do
    if filter.metadata.hasData then
      let _ ← logDelete filter.metadata.logPath
      pure (true, .ok ())
    else pure (true, .ok ())

def dropFilesNoted (filter : Filter) : Sys (Bool × Except Reply Unit) :=
  if filter.metadata.hasData then do
    match ← bpfUnpin filter.metadata.pinPath with
    | .error failure => pure (true, .error (.error .bpf .bpffs failure.message))
    | .ok () => dropMetadataNoted filter
  else dropMetadataNoted filter

def dropNoted (daemon : Daemon) (name : Bytes) : Sys (Bool × Reply × Daemon) :=
  if !nameIsValid name then pure (true, .error .name .parse "invalid name", daemon)
  else
    let (found, set) := daemon.set.findN name
    let daemon := { daemon with set }
    match found with
    | none => pure (true, .error .notFound .none "filter not found", daemon)
    | some index =>
      match set.items[index]? with
      | none => pure (true, .error .notFound .none "filter not found", daemon)
      | some filter => do
        match ← dropFilesNoted filter with
        | (noted, .error reply) => pure (noted, reply, daemon)
        | (noted, .ok ()) => Prod.mk noted <$> removeDropped daemon name filter

/-- CREATE or DROP over its body -/
def alter [Libm] (daemon : Daemon) (isCreate : Bool) (body : Bytes) : Sys (Reply × Daemon) :=
  if isCreate then handleCreateBody daemon body else handleDropBody daemon body

/-- CREATE or DROP over its body, with a note whether every compensating step that it took
succeeded: the re-pin of a DROP, or the removal of the metadata file of a CREATE -/
def alterNoted [Libm] (daemon : Daemon) (isCreate : Bool) (body : Bytes) : Sys (Bool × Reply × Daemon) :=
  if isCreate then
    match parseCreate body with
    | .error reply => pure (true, reply, daemon)
    | .ok request => createNoted daemon request
  else
    match parseNameRequest "DROP" body with
    | .error reply => pure (true, reply, daemon)
    | .ok name => dropNoted daemon name

theorem snd_installNoted (daemon : Daemon) (filter : Filter) :
    Prod.snd <$> installNoted daemon filter = installFilter daemon filter := by
  unfold installNoted installFilter uninstall
  rw [map_bind]
  apply bind_congr
  intro written
  cases written with
  | error errno => rfl
  | ok done =>
    simp only [map_bind]
    apply bind_congr
    intro added
    cases added with
    | error errno => simp only [map_bind, map_pure]
    | ok set => rfl

theorem snd_createNoted [Libm] (daemon : Daemon) (request : CreateRequest) :
    Prod.snd <$> createNoted daemon request = handleCreate daemon request := by
  unfold createNoted admitCreate handleCreate
  by_cases invalid : (!nameIsValid request.name) = true
  · simp only [invalid, ↓reduceIte, pure_bind, map_pure]
  · rw [if_neg invalid, if_neg invalid]
    by_cases ranges : request.capacity = 0 ∨ 2 ^ 32 ≤ request.capacity ∨ 15 < request.hashes ∨
        (!rateInRange request.errorRate) = true
    · rw [if_pos ranges, if_pos ranges, pure_bind, map_pure]
    · rw [if_neg ranges, if_neg ranges]
      dsimp only
      by_cases found : (daemon.set.findN request.name).1.isSome = true
      · rw [if_pos found, if_pos found, pure_bind, map_pure]
      · rw [if_neg found, if_neg found]
        cases assignFilterPaths daemon.config (newFilterMeta request) with
        | error errno => rfl
        | ok metadata =>
          dsimp only
          generalize takeEmptyMap _ metadata.capacity metadata.hashes metadata.valueSize = outcome
          obtain ⟨taken, later⟩ := outcome
          cases taken with
          | some map => simp only [pure_bind, snd_installNoted]
          | none =>
            simp only [bind_assoc, map_bind]
            apply bind_congr
            intro made
            cases made with
            | error failure =>
              dsimp only
              split <;> rfl
            | ok map => simp only [pure_bind, snd_installNoted]

theorem snd_dropFilesNoted (filter : Filter) : Prod.snd <$> dropFilesNoted filter = dropFiles filter := by
  have rest : Prod.snd <$> dropMetadataNoted filter = dropMetadata filter := by
    unfold dropMetadataNoted dropMetadata
    rw [map_bind]
    apply bind_congr
    intro deleted
    by_cases data : filter.metadata.hasData = true
    · cases deleted <;> simp only [data, ↓reduceIte, map_bind, map_pure]
    · cases deleted <;> simp only [data, ↓reduceIte, map_pure, Bool.false_eq_true]
  unfold dropFilesNoted dropFiles
  split
  · rw [map_bind]
    apply bind_congr
    intro unpinned
    cases unpinned with
    | error failure => rfl
    | ok done => exact rest
  · exact rest

theorem snd_dropNoted (daemon : Daemon) (name : Bytes) :
    Prod.snd <$> dropNoted daemon name = handleDrop daemon name := by
  unfold dropNoted handleDrop
  by_cases invalid : (!nameIsValid name) = true
  · simp only [invalid, ↓reduceIte, map_pure]
  · rw [if_neg invalid, if_neg invalid]
    dsimp only
    cases (daemon.set.findN name).1 with
    | none => rfl
    | some index =>
      dsimp only
      cases (daemon.set.findN name).2.items[index]? with
      | none => rfl
      | some filter =>
        dsimp only
        rw [← snd_dropFilesNoted, bind_map_left, map_bind]
        apply bind_congr
        intro outcome
        obtain ⟨noted, dropped⟩ := outcome
        cases dropped with
        | error reply => rfl
        | ok done => simp only [Functor.map_map, id_map']

/-- The note changes nothing of what a CREATE or DROP does. -/
theorem snd_alterNoted [Libm] (daemon : Daemon) (isCreate : Bool) (body : Bytes) :
    Prod.snd <$> alterNoted daemon isCreate body = alter daemon isCreate body := by
  cases isCreate with
  | true =>
    simp only [alterNoted, alter, ↓reduceIte, handleCreateBody]
    cases parseCreate body with
    | error reply => rfl
    | ok request => exact snd_createNoted daemon request
  | false =>
    simp only [alterNoted, alter, Bool.false_eq_true, ↓reduceIte, handleDropBody]
    cases parseNameRequest "DROP" body with
    | error reply => rfl
    | ok name => exact snd_dropNoted daemon name

end Noted

section Restoring

variable {roots : Config} {daemon later : Daemon} {world after : World}

/-- The metadata files of the root are those of the filters in the set, and every filter
with data has its map pinned. -/
structure Complete (roots : Config) (daemon : Daemon) (world : World) : Prop where
  files : ∀ stem, slash ∉ stem →
    ((world.fileAt (roots.metaPathOf stem)).isSome = true ↔ ∃ filter ∈ daemon.set.items, filter.name = stem)
  pinned : ∀ filter ∈ daemon.set.items, filter.metadata.hasData = true →
    world.pinAt filter.metadata.pinPath = some filter.mapFd

/-- All that a failed CREATE or DROP leaves as it was: the set but for its cached index, the
contents of the maps, the metadata files, and the pins and logs of the filters. The pool may have lost its map. -/
structure Restored (roots : Config) (daemon : Daemon) (world : World) (later : Daemon) (after : World) : Prop where
  config : later.config = daemon.config
  set : ∃ lastIndex, later.set = { daemon.set with lastIndex }
  pool : later.pool = daemon.pool ∨ later.pool = none
  maps : ∀ filter ∈ daemon.set.items, after.contents filter.mapFd = world.contents filter.mapFd
  files : ∀ stem, slash ∉ stem → after.fileAt (roots.metaPathOf stem) = world.fileAt (roots.metaPathOf stem)
  pins : ∀ filter ∈ daemon.set.items, after.pinAt filter.metadata.pinPath = world.pinAt filter.metadata.pinPath
  logs : ∀ filter ∈ daemon.set.items, after.logAt filter.metadata.logPath = world.logAt filter.metadata.logPath

theorem Restored.items (restored : Restored roots daemon world later after) : later.set.items = daemon.set.items := by
  obtain ⟨lastIndex, same⟩ := restored.set
  rw [same]

/-- The request finds the state it wants again, so it can be retried. -/
theorem Restored.complete (restored : Restored roots daemon world later after)
    (complete : Complete roots daemon world) : Complete roots later after where
  files stem plain := by
    rw [restored.files stem plain, restored.items]
    exact complete.files stem plain
  pinned filter member data := by
    rw [restored.items] at member
    rw [restored.pins filter member]
    exact complete.pinned filter member data

/-- What the handlers keep of the daemon until they succeed -/
structure Idle (daemon later : Daemon) : Prop where
  config : later.config = daemon.config
  set : ∃ lastIndex, later.set = { daemon.set with lastIndex }
  pool : later.pool = daemon.pool ∨ later.pool = none

theorem Idle.refl (daemon : Daemon) : Idle daemon daemon := ⟨rfl, ⟨daemon.set.lastIndex, rfl⟩, .inl rfl⟩

theorem idle_looked (daemon : Daemon) (name : Bytes) : Idle daemon { daemon with set := (daemon.set.findN name).2 } :=
  ⟨rfl, findN_set daemon.set name, .inl rfl⟩

theorem Idle.restored (idle : Idle daemon later) : Restored roots daemon world later world :=
  ⟨idle.config, idle.set, idle.pool, fun _ _ => rfl, fun _ _ => rfl, fun _ _ => rfl, fun _ _ => rfl⟩

theorem idle_takeEmptyMap (idle : Idle daemon later) (capacity hashes valueSize : Nat) :
    Idle daemon (takeEmptyMap later capacity hashes valueSize).2 := by
  have same := takeEmptyMap_items later capacity hashes valueSize
  have config : (takeEmptyMap later capacity hashes valueSize).2.config = later.config := by
    unfold takeEmptyMap
    split
    · split <;> rfl
    · rfl
  constructor
  · rw [config, idle.config]
  · rw [same]
    exact idle.set
  · rcases takeEmptyMap_pool later capacity hashes valueSize with ⟨-, pool⟩ | ⟨-, -, -, pool⟩
    · rw [pool]
      exact idle.pool
    · exact .inr pool

theorem leaf_metaPathOf_plain (roots : Config) {stem : Bytes} (plain : slash ∉ stem) :
    (resolve (roots.metaPathOf stem)).leaf = metaLeaf stem := by
  apply leaf_resolve_joined
  have long : 5 ≤ (stem ++ bytes ".meta").length := by simp [bytes]
  constructor
  · simp [bytes]
  · constructor
    · intro same
      rw [same] at long
      contradiction
    · intro same
      rw [same] at long
      contradiction
  · rw [List.mem_append, not_or]
    exact ⟨plain, by decide⟩

theorem Complete.unstored {name : Bytes} (complete : Complete roots daemon world)
    (valid : nameIsValid name = true) (missing : ∀ filter ∈ daemon.set.items, filter.name ≠ name) :
      world.fileAt (roots.metaPathOf name) = none := by
  have plain : slash ∉ name := not_mem_of_valid valid (by decide)
  rw [← Option.not_isSome_iff_eq_none, complete.files name plain]
  intro held
  obtain ⟨filter, member, same⟩ := held
  exact missing filter member same

/-- Work on the paths of a name that no filter has, which ends with the metadata file as it was -/
theorem restored_of_works {upkeep : Upkeep roots} {added : Bytes → List Digest} {name : Bytes}
    (serving : Serving upkeep daemon added world) (missing : ∀ filter ∈ daemon.set.items, filter.name ≠ name)
    (idle : Idle daemon later) (works : Works name nothing world after)
    (same : after.fileAt (roots.metaPathOf name) = world.fileAt (roots.metaPathOf name)) :
    Restored roots daemon world later after where
  config := idle.config
  set := idle.set
  pool := idle.pool
  maps filter _ := works.feeds.kept filter.mapFd
  files stem plain := by
    by_cases own : stem = name
    · rw [own, same]
    · have leaf := leaf_metaPathOf_plain roots plain
      exact (works.within.apart own).files _ leaf
  pins filter member := by
    have placed := (serving.tended.settled filter member).seated.placed
    exact (works.within.apart (missing filter member)).pins _ placed.pin
  logs filter member := by
    have placed := (serving.tended.settled filter member).seated.placed
    exact (works.within.apart (missing filter member)).logs _ placed.logLeaf

end Restoring

section Creating

variable {roots : Config} {upkeep : Upkeep roots} {daemon later : Daemon} {added : Bytes → List Digest}
  {world : World}

/-- A filter that a CREATE may install, with nothing done to the disk yet -/
structure Admitted (roots : Config) (daemon : Daemon) (world : World) (filter : Filter) (after : World) : Prop where
  created : Created roots filter.metadata
  missing : ∀ other ∈ daemon.set.items, other.name ≠ filter.name
  works : Works filter.name nothing world after
  files : after.files = world.files

theorem wp_admitCreate [Libm] (serving : Serving upkeep daemon added world) (request : CreateRequest) :
    wp (admitCreate daemon request) (fun result after => Idle daemon result.2 ∧
      (∀ reply, result.1 = .error reply → after = world) ∧
      ∀ filter, result.1 = .ok filter → Admitted roots daemon world filter after) (fun _ => True) world := by
  have refused : ∀ (reply : Reply) {later : Daemon}, Idle daemon later →
      wp (pure (.error reply, later) : Sys (Except Reply Filter × Daemon)) (fun result after => Idle daemon result.2 ∧
        (∀ reply, result.1 = .error reply → after = world) ∧
        ∀ filter, result.1 = .ok filter → Admitted roots daemon world filter after) (fun _ => True) world :=
    fun reply later idle => (wp_pure _).mpr ⟨idle, fun _ _ => rfl, fun filter wrong => by cases wrong⟩
  unfold admitCreate
  split
  · exact refused _ (.refl daemon)
  rename_i named
  split
  · exact refused _ (.refl daemon)
  rename_i ranges
  have valid : nameIsValid request.name = true := by simpa using named
  have looked := idle_looked daemon request.name
  simp only
  split
  · exact refused _ looked
  rename_i unfound
  have unserved : ∀ other ∈ daemon.set.items, other.name ≠ request.name :=
    FilterSet.findN_missing serving.named valid (by simpa using unfound)
  split
  · exact refused _ looked
  rename_i metadata assigned
  rw [serving.config] at assigned
  obtain ⟨created, same⟩ := created_of_assignFilterPaths valid ranges assigned
  rw [← same] at unserved
  have idle := idle_takeEmptyMap looked metadata.capacity metadata.hashes metadata.valueSize
  generalize takeEmptyMap _ metadata.capacity metadata.hashes metadata.valueSize = outcome at idle ⊢
  obtain ⟨taken, later⟩ := outcome
  cases taken with
  | some map =>
    refine (wp_pure _).mpr ⟨idle, nofun, fun filter admitted => ?_⟩
    cases admitted
    exact ⟨created, unserved, refl world, rfl⟩
  | none =>
    apply wp_bind
    apply (wp_bpfCreateMap metadata.capacity metadata.hashes world).mono _ fun _ _ => trivial
    intro result after held
    cases held with
    | refused failure =>
      dsimp only
      split <;> exact refused _ idle
    | made =>
      refine (wp_pure _).mpr ⟨idle, nofun, fun filter admitted => ?_⟩
      cases admitted
      exact ⟨created, unserved, ⟨.addMap world _, .addMap world rfl⟩, rfl⟩

/-- An installation that fails and whose clean-up removes the metadata file leaves the file as it was. -/
theorem wp_installNoted {filter : Filter} {before : World} (admitted : Admitted roots daemon before filter world)
    (unstored : before.fileAt (roots.metaPathOf filter.name) = none) :
    wp (installNoted later filter) (fun result after => result.2.1.status ≠ .ok → result.1 = true →
      result.2.2 = later ∧ Works filter.name nothing before after ∧
        after.fileAt (roots.metaPathOf filter.name) = before.fileAt (roots.metaPathOf filter.name))
      (fun _ => True) world := by
  have placed := admitted.created.placed
  have writes : Keeps (Works filter.name nothing) (metaWriteAtomic filter.metadata) fun _ => True :=
    keeps_metaWriteAtomic placed
  have fresh : world.fileAt (roots.metaPathOf filter.name) = before.fileAt (roots.metaPathOf filter.name) := by
    rw [World.fileAt, World.fileAt, admitted.files]
  unfold installNoted
  apply wp_bind
  apply ((wp_metaWriteAtomic placed).keeps writes).mono _ fun _ _ => trivial
  intro written after held
  obtain ⟨stored, -, moved⟩ := held
  have works := IsTrans.trans _ _ _ admitted.works moved
  cases written with
  | error errno =>
    have same : after.fileAt (roots.metaPathOf filter.name) = world.fileAt (roots.metaPathOf filter.name) :=
      congrArg View.file stored
    exact (wp_pure _).mpr fun _ _ => ⟨rfl, works, same.trans fresh⟩
  | ok done =>
    apply wp_bind
    apply (wp_filterSetAdd later.set filter after).mono _ fun _ _ => trivial
    intro result last grown
    obtain ⟨rfl, -⟩ := grown
    cases result with
    | ok set => exact (wp_pure _).mpr fun failed => absurd rfl failed
    | error errno =>
      have deletes : Keeps (Works filter.name nothing) (metaDelete filter.metadata.metaPath) fun _ => True :=
        keeps_metaDelete placed
      apply wp_bind
      apply (wp_metaDelete.keeps deletes).mono _ fun _ _ => trivial
      intro removed middle gone
      obtain ⟨gone, -, deleted⟩ := gone
      have absent : removed.isOk = true → middle.fileAt (roots.metaPathOf filter.name) = none := by
        intro success
        cases removed with
        | error errno => cases success
        | ok done =>
          rw [← placed.file]
          exact gone.1
      have unlogs : Keeps (Works filter.name nothing) (logDelete filter.metadata.logPath) fun _ => True :=
        keeps_logDelete placed.logLeaf
      have unpins : Keeps (Works filter.name nothing) (bpfUnpin filter.metadata.pinPath) fun _ => True :=
        keeps_unpin placed.pin
      let kept (state : World) : Prop := removed.isOk = true → state.fileAt (roots.metaPathOf filter.name) = none
      have unlogged : wp (logDelete filter.metadata.logPath) (fun _ => kept) kept middle := wp_logDelete absent absent
      apply wp_bind
      apply (unlogged.keeps unlogs).mono _ fun _ _ => trivial
      intro logged further still
      obtain ⟨still, -, trimmed⟩ := still
      have unpinned : wp (bpfUnpin filter.metadata.pinPath) (fun _ => kept) kept further := wp_bpfUnpin still still
      apply wp_bind
      apply (unpinned.keeps unpins).mono _ fun _ _ => trivial
      intro freed final ending
      obtain ⟨ending, -, cleared⟩ := ending
      refine (wp_pure _).mpr fun _ success => ⟨rfl, ?_, ?_⟩
      · have cleaned := IsTrans.trans _ _ _ deleted (IsTrans.trans _ _ _ trimmed cleared)
        exact IsTrans.trans _ _ _ works cleaned
      · rw [ending success, unstored]

theorem wp_createNoted [Libm] (serving : Serving upkeep daemon added world) (complete : Complete roots daemon world)
    (request : CreateRequest) :
    wp (createNoted daemon request) (fun result after => result.2.1.status ≠ .ok → result.1 = true →
      Restored roots daemon world result.2.2 after) (fun _ => True) world := by
  unfold createNoted
  apply wp_bind
  apply (wp_admitCreate serving request).mono _ fun _ _ => trivial
  intro result after held
  obtain ⟨outcome, later⟩ := result
  obtain ⟨idle, refused, accepted⟩ := held
  cases outcome with
  | error reply =>
    obtain rfl := refused reply rfl
    exact (wp_pure _).mpr fun _ _ => idle.restored
  | ok filter =>
    have admitted := accepted filter rfl
    have unstored := complete.unstored admitted.created.placed.valid admitted.missing
    apply (wp_installNoted admitted unstored).mono _ fun _ _ => trivial
    intro result final ended failed success
    obtain ⟨same, works, file⟩ := ended failed success
    rw [same]
    exact restored_of_works serving admitted.missing idle works file

end Creating

section Dropping

variable {roots : Config} {upkeep : Upkeep roots} {daemon : Daemon} {added : Bytes → List Digest} {world : World}
  {filter : Filter}

/-- The same files, logs and maps, and the same pin everywhere -/
structure Alike (before after : World) : Prop where
  files : after.files = before.files
  logs : after.logs = before.logs
  maps : after.maps = before.maps
  pins : ∀ loc, after.pins.lookup loc = before.pins.lookup loc

theorem Alike.refl (world : World) : Alike world world := ⟨rfl, rfl, rfl, fun _ => rfl⟩

/-- A pin that is taken away and set again -/
theorem alike_repinned {path : Bytes} {map : Nat} (pinned : world.pinAt path = some map) :
    Alike world ((world.dropPin path).setPin path map) where
  files := rfl
  logs := rfl
  maps := rfl
  pins loc := by
    rw [World.setPin_pins, World.dropPin_pins]
    by_cases own : loc = resolve path
    · rw [own, AList.lookup_insert]
      exact pinned.symm
    · rw [AList.lookup_insert_ne own, AList.lookup_erase_ne own]

theorem wp_bpfPinMap_result (map : Nat) (path : Bytes) :
    wp (bpfPinMap map path) (fun result after => result.isOk = true → after = world.setPin path map)
      (fun _ => True) world := by
  apply wp_bind
  apply wp_attempt trivial
  · intro errno _
    exact (wp_pure _).mpr fun wrong => Bool.noConfusion wrong
  · cases world.pinAt path with
    | some held => exact (wp_pure _).mpr fun wrong => Bool.noConfusion wrong
    | none => exact (wp_pure _).mpr fun _ => rfl

theorem wp_bpfUnpin_result {path : Bytes} {map : Nat} (pinned : world.pinAt path = some map) :
    wp (bpfUnpin path) (fun result after => (∀ done, result = .ok done → after = world.dropPin path) ∧
      ∀ failure, result = .error failure → after = world) (fun _ => True) world := by
  apply wp_bind
  apply wp_bind
  apply wp_attempt trivial
  · intro errno transient
    refine (wp_pure _).mpr ?_
    rw [if_neg transient.ne_enoent]
    exact (wp_pure _).mpr ⟨nofun, fun _ _ => rfl⟩
  · rw [pinned]
    exact (wp_pure _).mpr ((wp_pure _).mpr ⟨fun _ _ => rfl, nofun⟩)

/-- A failed removal of the metadata puts a pin back that was taken away before. -/
theorem wp_dropMetadataNoted {before : World} (alike : filter.metadata.hasData = false → Alike before world)
    (repinned : filter.metadata.hasData = true → Alike before (world.setPin filter.metadata.pinPath filter.mapFd)) :
    wp (dropMetadataNoted filter)
      (fun result after => ∀ reply, result.2 = .error reply → result.1 = true → Alike before after)
      (fun _ => True) world := by
  unfold dropMetadataNoted
  apply wp_bind
  apply wp_metaDelete.mono _ fun _ _ => trivial
  intro result after held
  cases result with
  | error errno =>
    obtain rfl := held
    dsimp only
    split
    · rename_i data
      apply wp_bind
      apply (wp_bpfPinMap_result filter.mapFd filter.metadata.pinPath).mono _ fun _ _ => trivial
      intro pinned last set
      refine (wp_pure _).mpr fun reply _ success => ?_
      rw [set success]
      exact repinned data
    · rename_i unfilled
      exact (wp_pure _).mpr fun _ _ _ => alike (by simpa using unfilled)
  | ok done =>
    dsimp only
    split
    · apply wp_bind
      apply (wp_trivial _).mono _ fun _ held => held
      intro deleted last _
      exact (wp_pure _).mpr nofun
    · exact (wp_pure _).mpr nofun

/-- A DROP that fails and whose re-pin succeeds leaves the world as it was. -/
theorem wp_dropFilesNoted
    (pinned : filter.metadata.hasData = true → world.pinAt filter.metadata.pinPath = some filter.mapFd) :
    wp (dropFilesNoted filter)
      (fun result after => ∀ reply, result.2 = .error reply → result.1 = true → Alike world after)
      (fun _ => True) world := by
  unfold dropFilesNoted
  split
  · rename_i data
    apply wp_bind
    apply (wp_bpfUnpin_result (pinned data)).mono _ fun _ held => held
    intro result after held
    cases result with
    | error failure =>
      rw [held.2 failure rfl]
      exact (wp_pure _).mpr fun _ _ _ => .refl world
    | ok done =>
      rw [held.1 done rfl]
      apply wp_dropMetadataNoted
      · intro unfilled
        rw [data] at unfilled
        cases unfilled
      · intro _
        exact alike_repinned (pinned data)
  · rename_i unfilled
    apply wp_dropMetadataNoted
    · exact fun _ => .refl world
    · exact fun data => absurd data unfilled

theorem Alike.restored {later : Daemon} {after : World} (alike : Alike world after) (idle : Idle daemon later) :
    Restored roots daemon world later after where
  config := idle.config
  set := idle.set
  pool := idle.pool
  maps filter _ := by rw [World.contents, World.contents, alike.maps]
  files stem _ := by rw [World.fileAt, World.fileAt, alike.files]
  pins filter _ := alike.pins _
  logs filter _ := by rw [World.logAt, World.logAt, alike.logs]

theorem wp_dropNoted (serving : Serving upkeep daemon added world) (complete : Complete roots daemon world)
    (name : Bytes) :
    wp (dropNoted daemon name) (fun result after => result.2.1.status ≠ .ok → result.1 = true →
      Restored roots daemon world result.2.2 after) (fun _ => True) world := by
  unfold dropNoted
  split
  · exact (wp_pure _).mpr fun _ _ => (Idle.refl daemon).restored
  · rename_i known
    have valid : nameIsValid name = true := by simpa using known
    have looked := idle_looked daemon name
    simp only
    cases located : (daemon.set.findN name).1 with
    | none => exact (wp_pure _).mpr fun _ _ => looked.restored
    | some index =>
      obtain ⟨filter, found, named⟩ := FilterSet.findN_name serving.named valid located
      simp only [FilterSet.findN_items, found]
      have member := List.mem_of_getElem? found
      apply wp_bind
      apply (wp_dropFilesNoted (complete.pinned filter member)).mono _ fun _ held => held
      intro result after held
      obtain ⟨noted, outcome⟩ := result
      cases outcome with
      | error reply => exact (wp_pure _).mpr fun _ success => (held reply rfl success).restored looked
      | ok done =>
        dsimp only
        rw [map_eq_pure_bind]
        apply wp_bind
        unfold removeDropped
        apply wp_bind
        apply (wp_trivial _).mono _ fun _ held => held
        intro removed last _
        refine (wp_pure _).mpr ((wp_pure _).mpr fun failed => ?_)
        exact absurd rfl failed

end Dropping

section Checking

variable {roots : Config} {upkeep : Upkeep roots} {daemon later : Daemon} {added : Bytes → List Digest}
  {world after : World}

/-- The reply to a CHECK -/
def checkReply (daemon : Daemon) (world : World) (name payload : Bytes) (answers : List Answer) : Option Reply :=
  (handleAddCheck daemon name payload false world answers).value.map Prod.fst

theorem value_checkDigest (filter : Filter) (digest : Digest)
    (same : after.contents filter.mapFd = world.contents filter.mapFd) (answers : List Answer) :
    (checkDigest filter digest after answers).value = (checkDigest filter digest world answers).value := by
  cases answers with
  | nil => rfl
  | cons answer rest =>
    cases answer with
    | count n => rfl
    | interrupted => rfl
    | fail fault => cases fault <;> rfl
    | ok | time now =>
      by_cases held : digest ∈ world.contents filter.mapFd
      all_goals simp [checkDigest, bpfCheckDigest, sysMapLookup, bind_apply, call, same, held, pure_apply, Stop.value]

theorem checkReply_found {name : Bytes} {index : Nat} {filter : Filter} (valid : nameIsValid name = true)
    (found : (daemon.set.findN name).1 = some index) (present : daemon.set.items[index]? = some filter)
    (payload : Bytes) (answers : List Answer) : checkReply daemon world name payload answers =
      (checkDigest filter (digestPayload payload) world answers).value.map Prod.fst := by
  simp only [checkReply, handleAddCheck, valid, Bool.not_true, Bool.false_eq_true, ↓reduceIte,
    withFilter_found found present, value_map, Option.map_map]
  rfl

/-- The same filters with the same contents of their maps answer every CHECK alike. -/
theorem Restored.checkReply (serving : Serving upkeep daemon added world)
    (restored : Restored roots daemon world later after) (name payload : Bytes) (answers : List Answer) :
    Bloomd.checkReply later after name payload answers = Bloomd.checkReply daemon world name payload answers := by
  by_cases valid : nameIsValid name = true
  · have named : ∀ filter ∈ later.set.items, nameIsValid filter.name = true := by
      rw [restored.items]
      exact serving.named
    cases found : (daemon.set.findN name).1 with
    | none =>
      have missing := FilterSet.findN_missing serving.named valid found
      cases again : (later.set.findN name).1 with
      | some index =>
        obtain ⟨filter, there, same⟩ := FilterSet.findN_name named valid again
        rw [restored.items] at there
        exact absurd same (missing filter (List.mem_of_getElem? there))
      | none => simp only [Bloomd.checkReply, handleAddCheck, valid, withFilter, found, again, Bool.not_true,
          Bool.false_eq_true, ↓reduceIte, pure_apply, Stop.value, Option.map_some]
    | some index =>
      obtain ⟨filter, there, same⟩ := FilterSet.findN_name serving.named valid found
      have member := List.mem_of_getElem? there
      have again := FilterSet.findN_isSome named valid (restored.items ▸ member) same
      obtain ⟨position, located⟩ := Option.isSome_iff_exists.mp again
      obtain ⟨other, met, equal⟩ := FilterSet.findN_name named valid located
      rw [restored.items] at met
      have one : position = index := index_of_name serving.tended.unique met there (equal.trans same.symm)
      subst one
      rw [checkReply_found valid found there, checkReply_found valid located (restored.items.symm ▸ there),
        value_checkDigest filter _ (restored.maps filter member)]
  · simp only [Bloomd.checkReply, handleAddCheck, valid, Bool.not_false, ↓reduceIte, pure_apply, Stop.value,
      Option.map_some]

end Checking

/-- A CREATE or DROP that answers with an error, and whose compensating steps succeed, has
changed nothing: it can be retried, and every CHECK is answered as before. -/
theorem alter_all_or_nothing [Libm] {roots : Config} {server : Server} (reached : Server.Reached roots server)
    (complete : Complete roots server.daemon server.world) (isCreate : Bool) (body : Bytes) :
    Prod.snd <$> alterNoted server.daemon isCreate body = alter server.daemon isCreate body ∧
    ∀ answers compensated reply later after rest,
      alterNoted server.daemon isCreate body server.world answers = .returned (compensated, reply, later) after rest →
      reply.status ≠ .ok → compensated = true →
        Restored roots server.daemon server.world later after ∧ Complete roots later after ∧
          ∀ name payload answers, checkReply later after name payload answers =
            checkReply server.daemon server.world name payload answers := by
  obtain ⟨added, serving⟩ := reached.sound.place
  have kept : wp (alterNoted server.daemon isCreate body) (fun result after => result.2.1.status ≠ .ok →
      result.1 = true → Restored roots server.daemon server.world result.2.2 after) (fun _ => True) server.world := by
    cases isCreate with
    | true =>
      simp only [alterNoted, ↓reduceIte]
      split
      · exact (wp_pure _).mpr fun _ _ => (Idle.refl server.daemon).restored
      · exact wp_createNoted serving complete _
    | false =>
      simp only [alterNoted, Bool.false_eq_true, ↓reduceIte]
      split
      · exact (wp_pure _).mpr fun _ _ => (Idle.refl server.daemon).restored
      · exact wp_dropNoted serving complete _
  constructor
  · exact snd_alterNoted server.daemon isCreate body
  · intro answers compensated reply later after rest run failed success
    have restored := kept.returned run failed success
    exact ⟨restored, restored.complete complete, restored.checkReply serving⟩

/-- The files and pins of a root as lists -/
theorem complete_of_lists {roots : Config} {daemon : Daemon} {world : World}
    (plain : ∀ filter ∈ daemon.set.items, slash ∉ filter.name)
    (files : world.files.keys = daemon.set.items.map fun filter => resolve (roots.metaPathOf filter.name))
    (pinned : ∀ filter ∈ daemon.set.items, filter.metadata.hasData = true →
      world.pinAt filter.metadata.pinPath = some filter.mapFd) : Complete roots daemon world where
  pinned := pinned
  files stem bare := by
    have held : (world.fileAt (roots.metaPathOf stem)).isSome = true ↔
        resolve (roots.metaPathOf stem) ∈ world.files.keys := AList.lookup_isSome
    rw [held, files, List.mem_map]
    constructor
    · rintro ⟨filter, member, same⟩
      have leaves := congrArg Loc.leaf same
      rw [leaf_metaPathOf_plain roots (plain filter member), leaf_metaPathOf_plain roots bare] at leaves
      exact ⟨filter, member, List.append_cancel_right leaves⟩
    · rintro ⟨filter, member, rfl⟩
      exact ⟨filter, member, rfl⟩

/-- Every call of a CREATE succeeds, but the set cannot grow. -/
def noMemory : List Answer := List.replicate 7 .ok ++ .fail .enomem :: List.replicate 3 .ok

/-- The body of the CREATE of a small installation -/
def demoCreateBody : Bytes := createBody ⟨demoName, 100, 0x3f847ae147ae147b, 3⟩

/-- The metadata cannot be removed after the pin was. -/
def noRemoval : List Answer := [.ok, .fail .eio, .ok]

/-- Whether the names of a set are plain, its metadata files and pins are those of the
root, and how DROP x ends -/
def dropOutcome (daemon : Daemon) (loaded : World) : Bool × Bool × Bool × Option (Bool × Status) :=
  (daemon.set.items.all fun filter => slash ∉ filter.name,
    loaded.files.keys = daemon.set.items.map fun filter => resolve (demoRoots.metaPathOf filter.name),
    daemon.set.items.all fun filter =>
      !filter.metadata.hasData || loaded.pinAt filter.metadata.pinPath = some filter.mapFd,
    (@alterNoted exactLibm daemon false (nameBody demoName) loaded noRemoval).value.map
      fun result => (result.1, result.2.1.status))

/-- A CREATE that takes its metadata back, and a DROP that pins its map again -/
theorem alter_all_or_nothing_undone :
    (∃ reply later after rest,
      @alterNoted exactLibm emptyDaemon true demoCreateBody .empty noMemory =
        .returned (true, reply, later) after rest ∧ reply.status = .internal ∧
      Restored demoRoots emptyDaemon .empty later after) ∧
    ∃ daemon loaded unused reply later after rest,
      startup .plain demoRoots pairWorld plenty = .returned (.ok daemon) loaded unused ∧
      @alterNoted exactLibm daemon false (nameBody demoName) loaded noRemoval =
        .returned (true, reply, later) after rest ∧ reply.status = .io ∧
      Restored demoRoots daemon loaded later after ∧ Complete demoRoots later after := by
  constructor
  · have started : startup .plain demoRoots .empty plenty = .returned (.ok emptyDaemon) .empty (plenty.drop 2) := rfl
    have reached : @Server.Reached exactLibm demoRoots (.start emptyDaemon .empty) :=
      @Server.Reached.start exactLibm _ _ _ _ _ _ _ started
    have complete : Complete demoRoots emptyDaemon .empty := complete_of_lists nofun rfl nofun
    have outcome : (@alterNoted exactLibm emptyDaemon true demoCreateBody .empty noMemory).value.map
        (fun result => (result.1, result.2.1.status)) = some (true, .internal) := by
      decide +kernel
    obtain ⟨⟨compensated, reply, later⟩, after, rest, run, ended⟩ := Stop.returned_of_value outcome
    obtain ⟨rfl, status⟩ := Prod.mk.inj ended
    have failed : reply.status ≠ .ok := by
      rw [status]
      decide
    have undone := (@alter_all_or_nothing exactLibm demoRoots _ reached complete true demoCreateBody).2
    exact ⟨reply, later, after, rest, run, status, (undone _ _ _ _ _ _ run failed rfl).1⟩
  · have seen : startedView pairWorld dropOutcome = some (true, true, true, some (true, .io)) := by
      decide +kernel
    obtain ⟨daemon, loaded, unused, started, outcome⟩ := started_of_view seen
    obtain ⟨plain, files, pinned, ran⟩ : _ ∧ _ ∧ _ ∧ _ := by simpa only [dropOutcome, Prod.mk.injEq] using outcome
    have reached : @Server.Reached exactLibm demoRoots (.start daemon loaded) :=
      @Server.Reached.start exactLibm _ _ _ _ _ _ _ started
    have complete : Complete demoRoots daemon loaded := by
      apply complete_of_lists
      · intro filter member
        exact of_decide_eq_true (List.all_eq_true.mp plain filter member)
      · exact of_decide_eq_true files
      · intro filter member data
        have checked := List.all_eq_true.mp pinned filter member
        rw [data] at checked
        exact of_decide_eq_true checked
    obtain ⟨⟨compensated, reply, later⟩, after, rest, run, ended⟩ := Stop.returned_of_value ran
    obtain ⟨rfl, status⟩ := Prod.mk.inj ended
    have failed : reply.status ≠ .ok := by
      rw [status]
      decide
    have undone := (@alter_all_or_nothing exactLibm demoRoots _ reached complete false (nameBody demoName)).2
    obtain ⟨restored, again, -⟩ := undone _ _ _ _ _ _ run failed rfl
    exact ⟨daemon, loaded, unused, reply, later, after, rest, started, run, status, restored, again⟩

end Bloomd
