import Bloomd.StartupInvariant

/-! Who puts digests into which kernel map: a request fills at most the map of the
filter it names, and maps change hands only between CREATE, DROP and the pool. -/

namespace Bloomd

open CrashLogic Prog

/-- Between the two worlds maps only took in digests that were allowed to them, and
the maps that were made are empty but for those. -/
structure Feeds (allowed : Nat → Digest → Prop) (before after : World) : Prop where
  count : before.maps.length ≤ after.maps.length
  fed : ∀ map, ∃ more, after.contents map = before.contents map ++ more ∧ ∀ digest ∈ more, allowed map digest

/-- No digest may go anywhere. -/
def nothing : Nat → Digest → Prop := fun _ _ => False

/-- Only these digests, and only into one map -/
def into (map : Nat) (digests : List Digest) : Nat → Digest → Prop :=
  fun other digest => other = map ∧ digest ∈ digests

namespace Feeds

variable {allowed wider : Nat → Digest → Prop} {before after : World}

theorem same (maps : after.maps = before.maps) : Feeds allowed before after where
  count := le_of_eq (by rw [maps])
  fed map := ⟨[], by simp [World.contents, maps], nofun⟩

instance : IsPreorder World (Feeds allowed) where
  refl _ := same rfl
  trans first second third start next := by
    constructor
    · exact start.count.trans next.count
    · intro map
      obtain ⟨some, split, early⟩ := start.fed map
      obtain ⟨more, further, late⟩ := next.fed map
      refine ⟨some ++ more, by rw [further, split, List.append_assoc], ?_⟩
      intro digest member
      rcases List.mem_append.mp member with old | new
      · exact early digest old
      · exact late digest new

instance : Owns (Feeds allowed) name where
  setFile _ _ _ _ := same rfl
  dropFile _ _ _ := same rfl
  setLog _ _ _ _ := same rfl
  changeLog world _ _ _ := same world.changeLog_maps
  dropLog _ _ _ := same rfl
  setPin _ _ _ _ := same rfl
  dropPin _ _ _ := same rfl

theorem mono (feeds : Feeds allowed before after) (weaker : ∀ map digest, allowed map digest → wider map digest) :
    Feeds wider before after where
  count := feeds.count
  fed map := by
    obtain ⟨more, split, all⟩ := feeds.fed map
    exact ⟨more, split, fun digest member => weaker map digest (all digest member)⟩

/-- A map that nothing was allowed to is as it was. -/
theorem untouched (feeds : Feeds allowed before after) {map : Nat} (forbidden : ∀ digest, ¬ allowed map digest) :
    after.contents map = before.contents map := by
  obtain ⟨more, split, all⟩ := feeds.fed map
  cases more with
  | nil => rw [split, List.append_nil]
  | cons digest more => exact absurd (all digest List.mem_cons_self) (forbidden digest)

theorem kept (feeds : Feeds nothing before after) (map : Nat) : after.contents map = before.contents map :=
  feeds.untouched fun _ => id

theorem addMap (world : World) {kernel : KernelMap} (empty : kernel.contents = []) :
    Feeds allowed world (world.addMap kernel) where
  count := by simp
  fed map := by
    refine ⟨[], ?_, nofun⟩
    rw [List.append_nil]
    rcases Nat.lt_trichotomy map world.maps.length with old | rfl | beyond
    · exact world.contents_addMap_old kernel old
    · rw [world.contents_addMap_new, empty]
      simp [World.contents]
    · have missing : (world.maps ++ [kernel]).length ≤ map := by
        rw [List.length_append]
        exact beyond
      simp only [World.contents, World.addMap_maps, List.getElem?_eq_none missing,
        List.getElem?_eq_none beyond.le]

theorem addDigest (world : World) {map : Nat} {digest : Digest} (permitted : allowed map digest) :
    Feeds allowed world (world.addDigest map digest) where
  count := by simp
  fed other := by
    by_cases same : other = map
    · subst same
      by_cases present : other < world.maps.length
      · refine ⟨[digest], world.contents_addDigest_same present digest, ?_⟩
        intro added member
        rwa [List.mem_singleton.mp member]
      · refine ⟨[], ?_, nofun⟩
        simp [World.contents, present]
    · refine ⟨[], ?_, nofun⟩
      simp [World.contents, Ne.symm same]

end Feeds

/-- Work on the paths of one filter that puts only allowed digests into maps -/
structure Works (name : Bytes) (allowed : Nat → Digest → Prop) (before after : World) : Prop where
  within : Within name before after
  feeds : Feeds allowed before after

namespace Works

variable {name : Bytes} {allowed wider : Nat → Digest → Prop}

instance : IsPreorder World (Works name allowed) where
  refl world := ⟨refl world, refl world⟩
  trans _ _ _ start next :=
    ⟨IsTrans.trans _ _ _ start.within next.within, IsTrans.trans _ _ _ start.feeds next.feeds⟩

instance : Owns (Works name allowed) name where
  setFile world _ leaf file := ⟨.setFile world leaf file, Owns.setFile world leaf file⟩
  dropFile world _ leaf := ⟨.dropFile world leaf, Owns.dropFile world leaf⟩
  setLog world _ leaf log := ⟨.setLog world leaf log, Owns.setLog world leaf log⟩
  changeLog world _ leaf change := ⟨.changeLog world leaf change, Owns.changeLog world leaf change⟩
  dropLog world _ leaf := ⟨.dropLog world leaf, Owns.dropLog world leaf⟩
  setPin world _ leaf map := ⟨.setPin world leaf map, Owns.setPin world leaf map⟩
  dropPin world _ leaf := ⟨.dropPin world leaf, Owns.dropPin world leaf⟩

theorem mono (works : Works name allowed before after)
    (weaker : ∀ map digest, allowed map digest → wider map digest) : Works name wider before after :=
  ⟨works.within, works.feeds.mono weaker⟩

theorem addDigest (world : World) {map : Nat} {digest : Digest} (permitted : allowed map digest) :
    Works name allowed world (world.addDigest map digest) :=
  ⟨.addDigest world map digest, .addDigest world permitted⟩

end Works

section Adding

variable {roots : Config} {filter : Filter} {world : World}

theorem Follows.counting {later : Filter} (follows : Follows roots filter later) (adds batches : Nat) :
    Follows roots filter { later with addCalls := adds, batchAddCalls := batches } :=
  ⟨⟨follows.seated.placed, follows.seated.fd⟩, follows.metadata, follows.mapFd, follows.data⟩

/-- The filter after an addition, and the maps: nothing was put in unless the filter
has data. -/
structure Absorbed (roots : Config) (filter : Filter) (digests : List Digest) (before : World) (later : Filter)
    (after : World) : Prop where
  follows : Follows roots filter later
  works : Works filter.name (into filter.mapFd digests) before after
  unfilled : later.metadata.hasData = false → Feeds nothing before after

/-- An addition is prepared without touching a map, and once it is prepared the
filter has data. -/
theorem keeps_prepareAdd_maps (seated : Seated roots filter) (mode : LogSyncMode) :
    Keeps (Works filter.name nothing) (prepareAdd filter mode) fun result =>
      Follows roots filter result.2 ∧ (∀ marked, result.1 = .ok marked → result.2.metadata.hasData = true) :=
  keeps_prepareAdd seated mode

theorem Absorbed.unprepared {digests : List Digest} {later : Filter} {after : World}
    (follows : Follows roots filter later) (works : Works filter.name nothing world after) :
    Absorbed roots filter digests world later after :=
  ⟨follows, works.mono fun _ _ => False.elim, fun _ => works.feeds⟩

theorem Absorbed.prepared {digests : List Digest} {middle later : Filter} {after last : World}
    (follows : Follows roots filter middle) (data : middle.metadata.hasData = true)
    (early : Works filter.name nothing world after) (more : Follows roots middle later)
    (late : Works filter.name (into filter.mapFd digests) after last) :
    Absorbed roots filter digests world later last := by
  refine ⟨follows.trans more, IsTrans.trans _ _ _ (early.mono fun _ _ => False.elim) late, ?_⟩
  intro unfilled
  rw [more.data data] at unfilled
  cases unfilled

theorem wp_addDigest_absorbed (seated : Seated roots filter) (digest : Digest) (mode : LogSyncMode) :
    wp (addDigest filter digest mode)
      (fun result after => Absorbed roots filter [digest] world result.2 after) (fun _ => True) world := by
  apply wp_bind
  refine (keeps_prepareAdd_maps seated mode world).mono ?_ fun _ _ => trivial
  rintro ⟨prepared, middle⟩ after ⟨⟨follows, data⟩, works⟩
  cases prepared with
  | error reply => exact (wp_pure _).mpr (.unprepared follows works)
  | ok marked =>
    have := follows.owns (Works filter.name (into filter.mapFd [digest]))
    have adds : ∀ world : World, Works filter.name (into filter.mapFd [digest]) world
        (world.addDigest middle.mapFd digest) :=
      fun world => .addDigest world ⟨follows.mapFd, List.mem_singleton_self digest⟩
    apply wp_bind
    refine (keeps_addStaged follows.seated adds mode marked after).mono ?_ fun _ _ => trivial
    rintro ⟨added, later⟩ last ⟨more, late⟩
    have absorbed := Absorbed.prepared follows (data marked rfl) works more late
    cases added with
    | error reply => exact (wp_pure _).mpr absorbed
    | ok done => exact (wp_pure _).mpr ⟨absorbed.follows.counting _ _, absorbed.works, absorbed.unfilled⟩

theorem wp_addBatch_absorbed (seated : Seated roots filter) (digests : List Digest) (mode : LogSyncMode) :
    wp (addBatch filter digests mode)
      (fun result after => Absorbed roots filter digests world result.2 after) (fun _ => True) world := by
  apply wp_bind
  refine (keeps_prepareAdd_maps seated mode world).mono ?_ fun _ _ => trivial
  rintro ⟨prepared, middle⟩ after ⟨⟨follows, data⟩, works⟩
  cases prepared with
  | error reply => exact (wp_pure _).mpr (.unprepared follows works)
  | ok marked =>
    have := follows.owns (Works filter.name (into filter.mapFd digests))
    have adds : ∀ digest ∈ digests, ∀ world : World, Works filter.name (into filter.mapFd digests) world
        (world.addDigest middle.mapFd digest) :=
      fun digest member world => .addDigest world ⟨follows.mapFd, member⟩
    apply wp_bind
    refine (keeps_addItems mode marked digests false follows.seated adds after).mono ?_ fun _ _ => trivial
    rintro ⟨added, later⟩ last ⟨more, late⟩
    have absorbed := Absorbed.prepared follows (data marked rfl) works more late
    cases added with
    | error reply => exact (wp_pure _).mpr absorbed
    | ok done => exact (wp_pure _).mpr ⟨absorbed.follows.counting _ _, absorbed.works, absorbed.unfilled⟩

end Adding

/-- The digests of the payloads that a request passes to ADD or MADD -/
def Request.digests : Request → List Digest
  | .add _ payload => [digestPayload payload]
  | .madd _ payloads => payloads.map digestPayload
  | _ => []

/-- What a request does to the filters in memory, to the pool and to the maps -/
inductive Handling (roots : Config) (daemon : Daemon) (request : Request) (before : World) :
    Reply → Daemon → World → Prop where
  | kept (items : later.set.items = daemon.set.items) (pool : later.pool = daemon.pool ∨ later.pool = none)
      (unmade : ∀ fields, request = .create fields → reply.status ≠ .ok) (feeds : Feeds nothing before after) :
      Handling roots daemon request before reply later after
  | worked {filter changed : Filter} (found : daemon.set.items[index]? = some filter)
      (named : filter.name = request.target) (absorbed : Absorbed roots filter request.digests before changed after)
      (items : later.set.items = daemon.set.items.set index changed) (pool : later.pool = daemon.pool)
      (unmade : ∀ fields, request ≠ .create fields) : Handling roots daemon request before reply later after
  | created {filter : Filter} (making : ∃ fields, request = .create fields) (named : filter.name = request.target)
      (missing : ∀ other ∈ daemon.set.items, other.name ≠ filter.name)
      (unfilled : filter.metadata.hasData = false)
      (source : (filter.mapFd = before.maps.length ∧ later.pool = daemon.pool) ∨
        ∃ pooled, daemon.pool = some pooled ∧ filter.mapFd = pooled.mapFd ∧ later.pool = none)
      (items : later.set.items = daemon.set.items ++ [filter]) (feeds : Feeds nothing before after) :
      Handling roots daemon request before reply later after
  | dropped {filter : Filter} (found : daemon.set.items[index]? = some filter)
      (named : filter.name = request.target)
      (items : later.set.items = daemon.set.items.eraseIdx index)
      (pool : later.pool.map PooledMap.mapFd =
        if filter.metadata.hasData then daemon.pool.map PooledMap.mapFd else some filter.mapFd)
      (unmade : ∀ fields, request ≠ .create fields) (feeds : Feeds nothing before after) :
      Handling roots daemon request before reply later after

section Handlers

variable {roots : Config} {upkeep : Upkeep roots} {daemon : Daemon} {added : Bytes → List Digest} {world : World}

/-- A handling together with the paths it was allowed to touch -/
abbrev Handled (roots : Config) (daemon : Daemon) (request : Request) (before : World)
    (result : Reply × Daemon) (after : World) : Prop :=
  Within request.target before after ∧ Handling roots daemon request before result.1 result.2 after

theorem handled_idle {request : Request} {reply : Reply} {later : Daemon}
    (items : later.set.items = daemon.set.items) (pool : later.pool = daemon.pool ∨ later.pool = none)
    (unmade : ∀ fields, request = .create fields → reply.status ≠ .ok) :
    Handled roots daemon request world (reply, later) world :=
  ⟨refl world, .kept items pool unmade (refl world)⟩

theorem wp_withFilter_handled (request : Request) {work : Filter → Sys (Reply × Filter)}
    (serving : Serving upkeep daemon added world) (valid : nameIsValid request.target = true)
    (unmade : ∀ fields, request ≠ .create fields)
    (works : ∀ filter, Seated roots filter → wp (work filter)
      (fun result after => Absorbed roots filter request.digests world result.2 after) (fun _ => True) world) :
    wp (withFilter daemon request.target work) (Handled roots daemon request world) (fun _ => True) world := by
  apply wp_withFilter serving valid
  · intro reply
    exact handled_idle FilterSet.findN_items (.inl rfl) fun fields same => absurd same (unmade fields)
  · intro index filter located found named
    have settled := serving.tended.settled filter (List.mem_of_getElem? found)
    refine (works filter settled.seated).mono ?_ fun _ _ => trivial
    intro result after absorbed
    have within := absorbed.works.within
    rw [named] at within
    exact ⟨within, .worked found named absorbed rfl rfl unmade⟩

theorem absorbed_unchanged {filter later : Filter} (digests : List Digest) (follows : Follows roots filter later) :
    Absorbed roots filter digests world later world :=
  ⟨follows, refl world, fun _ => refl world⟩

theorem wp_handleAddCheck_handled (serving : Serving upkeep daemon added world) (name payload : Bytes) :
    wp (handleAddCheck daemon name payload true) (Handled roots daemon (.add name payload) world)
      (fun _ => True) world ∧
    wp (handleAddCheck daemon name payload false) (Handled roots daemon (.check name payload) world)
      (fun _ => True) world := by
  unfold handleAddCheck
  split
  · exact ⟨(wp_pure _).mpr (handled_idle rfl (.inl rfl) nofun), (wp_pure _).mpr (handled_idle rfl (.inl rfl) nofun)⟩
  · rename_i named
    have valid : nameIsValid name = true := by simpa using named
    constructor
    · apply wp_withFilter_handled (.add name payload) serving valid nofun
      intro filter seated
      exact wp_addDigest_absorbed seated _ _
    · apply wp_withFilter_handled (.check name payload) serving valid nofun
      intro filter seated
      refine (wp_checkDigest filter (digestPayload payload) world).mono ?_ fun _ _ => trivial
      rintro result after ⟨rfl, checks, same⟩
      rw [same]
      exact absorbed_unchanged _ ⟨⟨seated.placed, seated.fd⟩, rfl, rfl, id⟩

theorem wp_handleBatch_handled (serving : Serving upkeep daemon added world) (name : Bytes) (payloads : List Bytes) :
    wp (handleBatch daemon name payloads true) (Handled roots daemon (.madd name payloads) world)
      (fun _ => True) world ∧
    wp (handleBatch daemon name payloads false) (Handled roots daemon (.mcheck name payloads) world)
      (fun _ => True) world := by
  unfold handleBatch
  split
  · exact ⟨(wp_pure _).mpr (handled_idle rfl (.inl rfl) nofun), (wp_pure _).mpr (handled_idle rfl (.inl rfl) nofun)⟩
  · rename_i named
    have valid : nameIsValid name = true := by simpa using named
    constructor
    · apply wp_withFilter_handled (.madd name payloads) serving valid nofun
      intro filter seated
      exact wp_addBatch_absorbed seated _ _
    · apply wp_withFilter_handled (.mcheck name payloads) serving valid nofun
      intro filter seated
      refine (wp_checkBatch filter (payloads.map digestPayload) world).mono ?_ fun _ _ => trivial
      rintro result after ⟨rfl, checks, same⟩
      rw [same]
      exact absorbed_unchanged _ ⟨⟨seated.placed, seated.fd⟩, rfl, rfl, id⟩

theorem wp_handleDrop_handled (serving : Serving upkeep daemon added world) (name : Bytes) :
    wp (handleDrop daemon name) (Handled roots daemon (.drop name) world) (fun _ => True) world := by
  unfold handleDrop
  split
  · exact (wp_pure _).mpr (handled_idle rfl (.inl rfl) nofun)
  · rename_i known
    have valid : nameIsValid name = true := by simpa using known
    simp only
    cases located : (daemon.set.findN name).1 with
    | none => exact (wp_pure _).mpr (handled_idle FilterSet.findN_items (.inl rfl) nofun)
    | some index =>
      obtain ⟨filter, found, named⟩ := FilterSet.findN_name serving.named valid located
      simp only [FilterSet.findN_items, found]
      have seated := (serving.tended.settled filter (List.mem_of_getElem? found)).seated
      have drops : Keeps (Works filter.name nothing) (dropFiles filter) fun _ => True := keeps_dropFiles seated
      apply wp_bind
      refine (drops world).mono ?_ fun _ _ => trivial
      rintro result after ⟨_, works⟩
      cases result with
      | error reply =>
        exact (wp_pure _).mpr ⟨named ▸ works.within, .kept FilterSet.findN_items (.inl rfl) nofun works.feeds⟩
      | ok done =>
        have flushes : Keeps (Works filter.name nothing) (logBufferFlush filter.logFd filter.logBuf false)
            fun _ => True := keeps_logBufferFlush seated _ _
        have there : ({ daemon with set := (daemon.set.findN name).2 } : Daemon).set.items[index]? = some filter := by
          simpa using found
        have position := (serving.looked name).found_index there
        rw [named] at position
        unfold removeDropped filterSetRemoveN
        rw [position]
        simp only [there]
        apply wp_bind
        apply wp_bind
        refine (flushes after).mono ?_ fun _ _ => trivial
        rintro flushed last ⟨_, more⟩
        have both : Works filter.name nothing world last := IsTrans.trans _ _ _ works more
        refine (wp_pure _).mpr ((wp_pure _).mpr ⟨named ▸ both.within, ?_⟩)
        refine .dropped found named (by simp) ?_ nofun both.feeds
        by_cases data : filter.metadata.hasData = true
        · simp [data]
        · simp [data]

/-- The end of a CREATE for a name that no filter has -/
theorem wp_installFilter_handled {request : CreateRequest} {metadata : FilterMeta} {later : Daemon}
    {map : Nat} {before : World} (created : Created roots metadata)
    (same : metadata.name = (Request.create request).target)
    (missing : ∀ other ∈ daemon.set.items, other.name ≠ metadata.name)
    (items : later.set.items = daemon.set.items) (pool : later.pool = daemon.pool ∨ later.pool = none)
    (source : (map = before.maps.length ∧ later.pool = daemon.pool) ∨
      ∃ pooled, daemon.pool = some pooled ∧ map = pooled.mapFd ∧ later.pool = none)
    (works : Works metadata.name nothing before world) :
    wp (installFilter later (.fresh metadata map)) (Handled roots daemon (.create request) before)
      (fun _ => True) world := by
  have refused : ∀ reply after, reply.status ≠ .ok → Works metadata.name nothing before after →
      Handled roots daemon (.create request) before (reply, later) after :=
    fun reply after bad works => ⟨same ▸ works.within, .kept items pool (fun _ _ => bad) works.feeds⟩
  have writes : Keeps (Works metadata.name nothing) (metaWriteAtomic metadata) fun _ => True :=
    keeps_metaWriteAtomic created.placed
  unfold installFilter
  apply wp_bind
  refine (writes world).mono ?_ fun _ _ => trivial
  rintro written after ⟨_, more⟩
  have so : Works metadata.name nothing before after := IsTrans.trans _ _ _ works more
  cases written with
  | error errno => exact (wp_pure _).mpr (refused _ _ nofun so)
  | ok done =>
    apply wp_bind
    refine (wp_filterSetAdd later.set (.fresh metadata map) after).mono ?_ fun _ _ => trivial
    rintro result after ⟨rfl, grown⟩
    cases result with
    | error errno =>
      have removes : Keeps (Works metadata.name nothing) (uninstall metadata
          (.error .internal .none "too many filters") later) fun result =>
          result = (.error .internal .none "too many filters", later) :=
        .bind (keeps_metaDelete created.placed) fun _ _ =>
          .bind (keeps_logDelete created.placed.logLeaf) fun _ _ =>
            .bind (keeps_unpin created.placed.pin) fun _ _ => .pure rfl
      refine (removes after).mono ?_ fun _ _ => trivial
      rintro result last ⟨rfl, undone⟩
      exact refused _ _ nofun (IsTrans.trans _ _ _ so undone)
    | ok set =>
      refine (wp_pure _).mpr ⟨same ▸ so.within, ?_⟩
      refine .created ⟨request, rfl⟩ (?_ : (Filter.fresh metadata map).name =
        _) missing created.hasData source ?_ so.feeds
      · exact same
      · rw [← items]
        exact grown set rfl

theorem takeEmptyMap_pool (daemon : Daemon) (capacity hashes valueSize : Nat) :
    (takeEmptyMap daemon capacity hashes valueSize).1 = none ∧
      (takeEmptyMap daemon capacity hashes valueSize).2.pool = daemon.pool ∨
    ∃ pooled, daemon.pool = some pooled ∧
      (takeEmptyMap daemon capacity hashes valueSize).1 = some pooled.mapFd ∧
      (takeEmptyMap daemon capacity hashes valueSize).2.pool = none := by
  unfold takeEmptyMap
  split
  · rename_i pooled holds
    split
    · exact .inr ⟨pooled, holds, rfl, rfl⟩
    · exact .inl ⟨rfl, rfl⟩
  · exact .inl ⟨rfl, rfl⟩

theorem wp_handleCreate_handled [Libm] (serving : Serving upkeep daemon added world) (request : CreateRequest) :
    wp (handleCreate daemon request) (Handled roots daemon (.create request) world) (fun _ => True) world := by
  unfold handleCreate
  split
  · exact (wp_pure _).mpr (handled_idle rfl (.inl rfl) nofun)
  rename_i named
  split
  · exact (wp_pure _).mpr (handled_idle rfl (.inl rfl) nofun)
  rename_i ranges
  have valid : nameIsValid request.name = true := by simpa using named
  simp only
  split
  · exact (wp_pure _).mpr (handled_idle FilterSet.findN_items (.inl rfl) nofun)
  rename_i unfound
  have unserved : ∀ other ∈ daemon.set.items, other.name ≠ request.name :=
    FilterSet.findN_missing serving.named valid (by simpa using unfound)
  split
  · exact (wp_pure _).mpr (handled_idle FilterSet.findN_items (.inl rfl) nofun)
  rename_i metadata assigned
  rw [serving.config] at assigned
  obtain ⟨created, same⟩ := created_of_assignFilterPaths valid ranges assigned
  rw [← same] at unserved
  have outcome := takeEmptyMap_pool { daemon with set := (daemon.set.findN request.name).2 }
    metadata.capacity metadata.hashes metadata.valueSize
  have items := congrArg FilterSet.items (takeEmptyMap_items { daemon with set := (daemon.set.findN request.name).2 }
    metadata.capacity metadata.hashes metadata.valueSize)
  generalize takeEmptyMap { daemon with set := (daemon.set.findN request.name).2 }
    metadata.capacity metadata.hashes metadata.valueSize = taken at outcome items ⊢
  obtain ⟨map, later⟩ := taken
  rw [FilterSet.findN_items] at items
  rcases outcome with ⟨rfl, pool⟩ | ⟨pooled, holds, rfl, pool⟩
  · apply wp_bind
    refine (wp_bpfCreateMap metadata.capacity metadata.hashes world).mono ?_ fun _ _ => trivial
    intro result after held
    cases held with
    | refused failure =>
      simp only
      split
      · exact (wp_pure _).mpr (handled_idle items (.inl pool) nofun)
      · exact (wp_pure _).mpr (handled_idle items (.inl pool) nofun)
    | made =>
      exact wp_installFilter_handled created same unserved items (.inl pool) (.inl ⟨rfl, pool⟩)
        ⟨.addMap world _, .addMap world rfl⟩
  · exact wp_installFilter_handled created same unserved items (.inr pool)
      (.inr ⟨pooled, holds, rfl, pool⟩) (refl world)

/-- Every request works on the filter it names, and maps go from hand to hand only
in CREATE and DROP. -/
theorem wp_handle_handled [Libm] (serving : Serving upkeep daemon added world) (request : Request) :
    wp (handle daemon request) (Handled roots daemon request world) (fun _ => True) world := by
  cases request with
  | create fields => exact wp_handleCreate_handled serving fields
  | add name payload => exact (wp_handleAddCheck_handled serving name payload).1
  | check name payload => exact (wp_handleAddCheck_handled serving name payload).2
  | madd name payloads => exact (wp_handleBatch_handled serving name payloads).1
  | mcheck name payloads => exact (wp_handleBatch_handled serving name payloads).2
  | drop name => exact wp_handleDrop_handled serving name

end Handlers

end Bloomd
