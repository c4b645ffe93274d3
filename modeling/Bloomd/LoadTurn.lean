import Bloomd.LoadView

/-! One filter in a startup, whatever else is on disk. The turns of other entries
leave its files alone and never put a filter of its name into the set, so what its
own turn achieves is what the startup achieves for it. -/

namespace Bloomd

open CrashLogic Prog

/-- The filters of a name in the set -/
def FilterSet.named (set : FilterSet) (name : Bytes) : List Filter :=
  set.items.filter fun filter => filter.name == name

theorem FilterSet.named_of_items {set later : FilterSet} (same : later.items = set.items) (name : Bytes) :
    later.named name = set.named name := by
  rw [FilterSet.named, same]
  rfl

theorem FilterSet.mem_named {set : FilterSet} {name : Bytes} {filter : Filter} :
    filter ∈ set.named name ↔ filter ∈ set.items ∧ filter.name = name := by
  simp [FilterSet.named]

/-- All filters of a set have valid names. -/
def FilterSet.Valid (set : FilterSet) : Prop := ∀ filter ∈ set.items, nameIsValid filter.name = true

section

variable {roots : Config} {mode : LogSyncMode} {name : Bytes} {world : World} (env : Env)

/-- A turn adds at most one filter, and that one has the name of the entry. -/
theorem wp_loadRecord_items {other : Bytes} (valid : nameIsValid other = true) (loading : Loading) :
    wp (loadRecord env (roots.withMode mode) (roots.metaPathOf other) other loading)
      (fun result _ => result.2.set.items = loading.set.items ∨
        ∃ filter, result.2.set.items = loading.set.items ++ [filter] ∧ filter.name = other)
      (fun _ => True) world := by
  have turn := @wp_loadRecord roots (anyUpkeep roots) mode other [] world env loading valid trivial
  refine turn.mono ?_ fun _ _ => trivial
  intro result after turned
  rcases turned with ⟨same, _⟩ | ⟨filter, grown, named, _⟩
  · exact Or.inl same
  · exact Or.inr ⟨filter, grown, named⟩

theorem keepsApart_loadEntry (entry : Bytes) (different : entry ≠ metaLeaf name) (loading : Loading) :
    Keeps (Apart name) (loadEntry env (roots.withMode mode) entry loading) fun result =>
      result.2.set.named name = loading.set.named name ∧ (loading.set.Valid → result.2.set.Valid) := by
  unfold loadEntry
  split
  · exact .pure ⟨rfl, id⟩
  · simp only
    split
    · exact .pure ⟨rfl, id⟩
    · split
      · exact .pure ⟨rfl, id⟩
      · rename_i other named
        obtain ⟨rfl, valid⟩ := metaEntryName_ok named
        rw [show joined (roots.withMode mode).metaRoot (metaLeaf other) [] = roots.metaPathOf other from
          joined_metaLeaf roots other]
        have apart : name ≠ other := fun same => different (congrArg metaLeaf same.symm)
        intro world
        have within := @staysWithin_loadRecord roots mode other env valid loading
        have turn := (@wp_loadRecord_items roots mode world env other valid loading).and (within.apart apart world)
        refine turn.mono ?_ fun _ held => held.2
        rintro result after ⟨items, _, kept⟩
        refine ⟨?_, kept⟩
        rcases items with same | ⟨filter, grown, rfl⟩
        · refine ⟨FilterSet.named_of_items same name, fun valid => ?_⟩
          rw [FilterSet.Valid, same]
          exact valid
        · constructor
          · rw [FilterSet.named, grown, List.filter_append]
            simp [FilterSet.named, Ne.symm apart]
          · intro before other member
            rw [grown] at member
            rcases List.mem_append.mp member with old | new
            · exact before other old
            · rw [List.mem_singleton.mp new]
              exact valid

theorem keepsApart_loadEntries (entries : List Bytes) (missing : metaLeaf name ∉ entries) :
    ∀ loading : Loading, Keeps (Apart name) (loadEntries env (roots.withMode mode) entries loading)
      fun result => result.2.set.named name = loading.set.named name ∧
        (loading.set.Valid → result.2.set.Valid) := by
  induction entries with
  | nil => exact fun loading => .pure ⟨rfl, id⟩
  | cons entry rest ih =>
    intro loading
    obtain ⟨different, missing⟩ := not_or.mp (mt List.mem_cons.mpr missing)
    refine .bind (keepsApart_loadEntry env entry (Ne.symm different) loading) fun (loaded, later) held => ?_
    cases loaded with
    | error failure => exact .pure held
    | ok done =>
      refine (ih missing later).mono fun result more => ?_
      exact ⟨more.1.trans held.1, fun valid => more.2 (held.2 valid)⟩

/-- The entry of a filter whose path fits is dealt with by its record. -/
theorem loadEntry_metaLeaf (valid : nameIsValid name = true)
    (fits : (roots.metaPathOf name).length < pathMax) (loading : Loading) :
    loadEntry env (roots.withMode mode) (metaLeaf name) loading =
      loadRecord env (roots.withMode mode) (roots.metaPathOf name) name loading := by
  have path : joined (roots.withMode mode).metaRoot (metaLeaf name) [] = roots.metaPathOf name :=
    joined_metaLeaf roots name
  unfold loadEntry
  simp only [hasSuffix_metaLeaf, path, metaEntryName_metaLeaf valid, Nat.not_le.mpr fits, Bool.not_true,
    Bool.false_eq_true, ↓reduceIte]

/-- A load goes on with the rest of the entries when the first ones went well. -/
theorem loadEntries_append {env : Env} {config : Config} {front rest : List Bytes}
    {loading later : Loading} {middle : World} {answers unused : List Answer}
    (loaded : loadEntries env config front loading world answers =
      .returned (.ok (), later) middle unused) :
    loadEntries env config (front ++ rest) loading world answers =
      loadEntries env config rest later middle unused := by
  induction front generalizing loading world answers with
  | nil =>
    have same : (Stop.returned (Except.ok (), loading) world answers :
        Stop World Answer (Except Failure Unit × Loading)) =
        .returned (.ok (), later) middle unused := loaded
    obtain ⟨pair, rfl, rfl⟩ := Stop.returned.inj same
    obtain ⟨-, rfl⟩ := Prod.mk.inj pair
    rfl
  | cons entry front ih =>
    simp only [List.cons_append, loadEntries, bind_apply] at loaded ⊢
    split at loaded
    · rename_i result after left _
      obtain ⟨outcome, next⟩ := result
      cases outcome with
      | error failure =>
        simp only [pure_apply] at loaded
        cases loaded
      | ok done => exact ih loaded
    · cases loaded

/-- What the turn of a filter needs and achieves. `before` holds until it comes,
`after` speaks of the filters of that name that it leaves in the set, and `crash`
holds wherever the startup stops. -/
structure Turn (env : Env) (roots : Config) (mode : LogSyncMode) (name : Bytes)
    (before : World → Prop) (after : List Filter → World → Prop) (crash : World → Prop) : Prop where
  valid : nameIsValid name = true
  fits : (roots.metaPathOf name).length < pathMax
  before_apart : ∀ {world later}, Apart name world later → before world → before later
  after_apart : ∀ {filters world later}, Apart name world later → after filters world →
    after filters later
  crash_apart : ∀ {world later}, Apart name world later → crash world → crash later
  crash_changeLog : ∀ {world} path change, crash world → crash (world.changeLog path change)
  begins : ∀ {world}, before world → crash world
  ends : ∀ {filters world}, after filters world → crash world
  turn : ∀ {loading world}, before world → loading.set.named name = [] → loading.set.Valid →
    wp (loadRecord env (roots.withMode mode) (roots.metaPathOf name) name loading)
      (fun result later => crash later ∧ (result.1 = .ok () → after (result.2.set.named name) later))
      crash world

end

section

variable {env : Env} {roots : Config} {mode : LogSyncMode} {name : Bytes} {before crash : World → Prop}
  {after : List Filter → World → Prop} {world : World}

theorem Turn.wp_loadEntries (task : Turn env roots mode name before after crash)
    {entries : List Bytes} (unique : entries.Nodup) (listed : metaLeaf name ∈ entries) :
    ∀ (loading : Loading) (world : World), before world → loading.set.named name = [] →
      loading.set.Valid → wp (loadEntries env (roots.withMode mode) entries loading)
        (fun result later => crash later ∧ result.2.set.Valid ∧
          (result.1 = .ok () → after (result.2.set.named name) later)) crash world := by
  induction entries with
  | nil => exact absurd listed List.not_mem_nil
  | cons entry rest ih =>
    intro loading world held missing valid
    obtain ⟨fresh, unique⟩ := List.nodup_cons.mp unique
    by_cases own : entry = metaLeaf name
    · subst own
      have turn := (task.turn held missing valid).and
        (@wp_loadRecord_items roots mode world env name task.valid loading)
      unfold loadEntries
      rw [loadEntry_metaLeaf env task.valid task.fits]
      refine wp_bind (turn.mono ?_ fun _ held => held.1)
      rintro ⟨loaded, later⟩ middle ⟨⟨safe, done⟩, items⟩
      have validLater : later.set.Valid := by
        rcases items with same | ⟨filter, grown, named⟩
        · intro filter member
          exact valid filter (same ▸ member)
        · intro other member
          have member : other ∈ later.set.items := member
          rw [show later.set.items = loading.set.items ++ [filter] from grown] at member
          rcases List.mem_append.mp member with old | new
          · exact valid other old
          · rw [List.mem_singleton.mp new, named]
            exact task.valid
      cases loaded with
      | error failure => exact (wp_pure _).mpr ⟨safe, validLater, fun failed => (by cases failed)⟩
      | ok _ =>
        have reached := done rfl
        refine (keepsApart_loadEntries env rest fresh later middle).mono ?_ ?_
        · rintro result last ⟨⟨same, validLast⟩, apart⟩
          refine ⟨task.crash_apart apart safe, validLast validLater, fun _ => ?_⟩
          rw [same]
          exact task.after_apart apart reached
        · exact fun last apart => task.crash_apart apart safe
    · have listed : metaLeaf name ∈ rest := by
        rcases List.mem_cons.mp listed with same | later
        · exact absurd same.symm own
        · exact later
      refine wp_bind ((keepsApart_loadEntry env entry own loading world).mono ?_ ?_)
      · rintro ⟨loaded, later⟩ middle ⟨⟨same, validLater⟩, apart⟩
        have heldLater := task.before_apart apart held
        cases loaded with
        | error failure =>
          exact (wp_pure _).mpr ⟨task.begins heldLater, validLater valid, fun failed => (by cases failed)⟩
        | ok _ => exact ih unique listed later middle heldLater (same.trans missing) (validLater valid)
      · exact fun middle apart => task.begins (task.before_apart apart held)

/-- The pins of the filters in the set survive the cleanup. -/
theorem keepsApart_cleanupPins (mode : LogSyncMode) (entries : List Bytes) :
    ∀ loading : Loading, loading.set.Valid → loading.set.named name ≠ [] →
      Keeps (Apart name) (cleanupPins (roots.withMode mode) entries loading)
        fun later => later.set.items = loading.set.items := by
  induction entries with
  | nil => exact fun loading _ _ => .pure rfl
  | cons entry rest ih =>
    intro loading valids served
    have found : (loading.set.findN entry).2.items = loading.set.items := by simp
    have again : ∀ later : Loading, later.set.items = loading.set.items →
        Keeps (Apart name) (cleanupPins (roots.withMode mode) rest later)
          fun last => last.set.items = loading.set.items := by
      intro later same
      refine (ih later ?_ ?_).mono fun last more => more.trans same
      · exact fun filter member => valids filter (same ▸ member)
      · rw [FilterSet.named_of_items same]
        exact served
    unfold cleanupPins
    split
    · exact ih loading valids served
    · rename_i named
      have validEntry : nameIsValid entry = true := by simpa using named
      simp only
      split
      · exact again _ found
      · rename_i unfound
        split
        · exact again _ found
        · have different : name ≠ entry := by
            rintro rfl
            obtain ⟨filter, member⟩ := List.exists_mem_of_ne_nil _ served
            obtain ⟨inside, same⟩ := FilterSet.mem_named.mp member
            exact unfound (FilterSet.findN_isSome valids validEntry inside same)
          have leaf : (resolve (joined (roots.withMode mode).pinRoot entry [])).leaf = entry :=
            leaf_pinPathOf roots validEntry
          have unlinks : Keeps (Apart name) (sysUnlinkPin (joined (roots.withMode mode).pinRoot entry []))
              fun _ => True := by
            refine StaysWithin.apart (keeps_attempt fun world => ?_) different
            split
            · exact .dropPin world leaf
            · exact refl world
          refine .bind unlinks fun result _ => ?_
          cases result with
          | error errno => exact again _ found
          | ok _ => exact again _ found

/-- Freeing a set reaches only logs. -/
theorem wp_freeFilters_logs (changes : ∀ {world} path change, crash world → crash (world.changeLog path change))
    (items : List Filter) : ∀ world : World, crash world →
      wp (freeFilters items) (fun _ => crash) crash world := by
  induction items with
  | nil => exact fun world held => (wp_pure _).mpr held
  | cons filter rest ih =>
    intro world held
    refine wp_bind (?_ : wp (logBufferFlush filter.logFd filter.logBuf true) _ _ _)
    cases filter.logFd with
    | none => exact (wp_pure _).mpr (ih world held)
    | some path =>
      refine (wp_logBufferFlush path (Or.inr rfl) held (fun _ _ safe => changes path _ safe)
        (fun _ safe => changes path _ safe) _ _).mono (fun _ middle safe => ih middle safe) fun _ safe => safe

theorem wp_cleanupPins_items (config : Config) (entries : List Bytes) : ∀ (loading : Loading) (world : World),
    wp (cleanupPins config entries loading) (fun later _ => later.set.items = loading.set.items) (fun _ => True)
      world := by
  induction entries with
  | nil => exact fun loading world => (wp_pure _).mpr rfl
  | cons entry rest ih =>
    intro loading world
    have looked : ∀ stats world, wp (cleanupPins config rest ⟨(loading.set.findN entry).2, stats⟩)
        (fun later _ => later.set.items = loading.set.items) (fun _ => True) world := by
      intro stats world
      apply (ih _ world).mono _ fun _ held => held
      intro later _ same
      exact same.trans FilterSet.findN_items
    unfold cleanupPins
    split
    · exact ih loading world
    · simp only
      split
      · exact looked _ _
      · split
        · exact looked _ _
        · apply wp_bind
          apply (wp_trivial _).mono _ fun _ held => held
          intro result after _
          cases result with
          | error errno => exact looked _ _
          | ok done => exact looked _ _

theorem wp_cleanupOrphanPins_items {config : Config} {loading : Loading} : wp (cleanupOrphanPins env config loading)
    (fun result _ => result.2.set.items = loading.set.items) (fun _ => True) world := by
  refine wp_bind (wp_attempt trivial (fun errno _ => ?_) ?_)
  · simp only
    split
    · exact (wp_pure _).mpr rfl
    · exact (wp_pure _).mpr rfl
  · apply wp_bind
    apply (wp_cleanupPins_items config _ loading world).mono _ fun _ held => held
    intro later _ same
    exact (wp_pure _).mpr same

/-- What a load does for a filter is what the startup does for it, if the cleanup keeps it. -/
theorem wp_startup_of_load
    (changes : ∀ {world} path change, crash world → crash (world.changeLog path change))
    (ends : ∀ {filters world}, after filters world → crash world)
    (loads : wp (loadMetadataDir env (roots.withMode mode) ⟨.init, .zero⟩)
      (fun result later => crash later ∧ result.2.set.Valid ∧
        (result.1 = .ok () → after (result.2.set.named name) later)) crash world)
    (cleans : ∀ entries loading middle, loading.set.Valid → after (loading.set.named name) middle →
      wp (cleanupPins (roots.withMode mode) entries loading)
        (fun later last => later.set.items = loading.set.items ∧ after (loading.set.named name) last)
        crash middle) :
    wp (startup env (roots.withMode mode))
      (fun result later => crash later ∧ ∀ daemon, result = .ok daemon →
        daemon.config = roots.withMode mode ∧ daemon.set.Valid ∧ after (daemon.set.named name) later)
      crash world := by
  have frees : ∀ (set : FilterSet) (failure : Failure) (middle : World), crash middle →
      wp (do filterSetFree set; pure (.error failure) : Sys (Except Failure Daemon))
        (fun result later => crash later ∧ ∀ daemon, result = .ok daemon →
          daemon.config = roots.withMode mode ∧ daemon.set.Valid ∧ after (daemon.set.named name) later)
        crash middle := by
    intro set failure middle safe
    refine wp_bind ((wp_freeFilters_logs changes set.items middle safe).mono ?_ fun _ safe => safe)
    exact fun _ last safe => (wp_pure _).mpr ⟨safe, fun _ failed => (by cases failed)⟩
  refine wp_bind (loads.mono ?_ fun _ safe => safe)
  rintro ⟨loaded, loading⟩ middle ⟨safe, valid, done⟩
  cases loaded with
  | error failure => exact frees _ _ middle safe
  | ok _ =>
    have reached : after (loading.set.named name) middle := done rfl
    have reconciles : wp (cleanupOrphanPins env (roots.withMode mode) loading)
        (fun result last => result.2.set.items = loading.set.items ∧ after (loading.set.named name) last)
        crash middle := by
      refine wp_bind (wp_attempt safe (fun errno _ => ?_) ?_)
      · simp only
        split
        · exact (wp_pure _).mpr ⟨rfl, reached⟩
        · exact (wp_pure _).mpr ⟨rfl, reached⟩
      · refine wp_bind ((cleans _ loading middle valid reached).mono ?_ fun _ safe => safe)
        exact fun later last held => (wp_pure _).mpr held
    refine wp_bind (reconciles.mono ?_ fun _ safe => safe)
    rintro ⟨cleaned, later⟩ last ⟨same, reached⟩
    cases cleaned with
    | error errno => exact frees _ _ last (ends reached)
    | ok _ =>
      refine (wp_pure _).mpr ⟨ends reached, fun daemon returned => ?_⟩
      obtain rfl := Except.ok.inj returned
      refine ⟨rfl, fun filter member => valid filter (same ▸ member), ?_⟩
      rw [FilterSet.named_of_items same]
      exact reached

theorem FilterSet.valid_init : FilterSet.init.Valid := fun _ member => absurd member List.not_mem_nil

/-- The entries of the metadata directory that a startup is given -/
def Env.metaListing (env : Env) (roots : Config) (world : World) : List Bytes :=
  env.listing env.filesCut (entriesIn world.files (resolve roots.metaRoot))

theorem Env.nodup_metaListing (env : Env) (roots : Config) (world : World) : (env.metaListing roots world).Nodup :=
  env.nodup_listing _ (nodup_entriesIn _ _)

theorem Env.perm_metaListing (env : Env) (whole : env.filesCut = none) (roots : Config) (world : World) :
    (env.metaListing roots world).Perm (entriesIn world.files (resolve roots.metaRoot)) :=
  env.perm_listing fun count cut => by
    rw [whole] at cut
    cases cut

theorem Env.mem_metaListing (env : Env) (whole : env.filesCut = none) {entry : Bytes} :
    entry ∈ env.metaListing roots world ↔ entry ∈ entriesIn world.files (resolve roots.metaRoot) :=
  (env.perm_metaListing whole roots world).mem_iff

/-- A load whose directory opens goes through its entries. -/
theorem loadMetadataDir_listed {config : Config} {loading : Loading} {lists : Answer} (given : lists.refusal = none)
    (answers : List Answer) : loadMetadataDir env config loading world (lists :: answers) =
      loadEntries env config (env.metaListing config world) loading world answers := by
  simp only [loadMetadataDir, bind_apply, sysListFiles, attempt, call, given]
  rfl

/-- A load is refused its directory, or goes through the entries of the listing. -/
theorem wp_loadMetadataDir_listed {post : Except Failure Unit × Loading → World → Prop} {config : Config}
    {loading : Loading} (safe : crash world) (refused : ∀ failure, post (.error failure, loading) world)
    (loads : wp (loadEntries env config (env.metaListing config world) loading) post crash world) :
    wp (loadMetadataDir env config loading) post crash world := by
  refine wp_bind (wp_attempt safe (fun errno transient => ?_) loads)
  simp only [transient.ne_enoent, ↓reduceIte]
  exact (wp_pure _).mpr (refused _)

/-- The load up to the end: the turn of the filter comes, unless the load fails before. -/
theorem Turn.wp_loadMetadataDir (task : Turn env roots mode name before after crash)
    (listed : metaLeaf name ∈ env.metaListing roots world) (held : before world) :
    wp (loadMetadataDir env (roots.withMode mode) ⟨.init, .zero⟩)
      (fun result later => crash later ∧ result.2.set.Valid ∧
        (result.1 = .ok () → after (result.2.set.named name) later)) crash world := by
  apply wp_loadMetadataDir_listed (task.begins held)
  · exact fun failure => ⟨task.begins held, FilterSet.valid_init, nofun⟩
  · exact task.wp_loadEntries (env.nodup_metaListing roots world) listed _ _ held rfl FilterSet.valid_init

/-- A startup does for the filter what its turn does, if the cleanup keeps it. -/
theorem Turn.wp_startup_cleaned (task : Turn env roots mode name before after crash)
    (listed : metaLeaf name ∈ env.metaListing roots world) (held : before world)
    (cleans : ∀ entries loading middle, loading.set.Valid → after (loading.set.named name) middle →
      wp (cleanupPins (roots.withMode mode) entries loading)
        (fun later last => later.set.items = loading.set.items ∧ after (loading.set.named name) last)
        crash middle) :
    wp (startup env (roots.withMode mode))
      (fun result later => crash later ∧ ∀ daemon, result = .ok daemon →
        daemon.config = roots.withMode mode ∧ daemon.set.Valid ∧ after (daemon.set.named name) later)
      crash world :=
  wp_startup_of_load task.crash_changeLog task.ends (task.wp_loadMetadataDir listed held) cleans

/-- A startup that is not given the file of a filter leaves the name out of the set, and does
to its files what the cleanup does. -/
theorem wp_startup_unlisted (missing : metaLeaf name ∉ env.metaListing roots world) (held : crash world)
    (apart : ∀ {world later}, Apart name world later → crash world → crash later)
    (changes : ∀ {world} path change, crash world → crash (world.changeLog path change))
    (cleans : ∀ entries loading middle, crash middle →
      wp (cleanupPins (roots.withMode mode) entries loading)
        (fun later last => later.set.items = loading.set.items ∧ crash last) crash middle) :
    wp (startup env (roots.withMode mode))
      (fun result later => crash later ∧ ∀ daemon, result = .ok daemon → daemon.set.named name = [])
      crash world := by
  have starts := @wp_startup_of_load env roots mode name crash (fun filters later => filters = [] ∧ crash later)
    world changes (fun held => held.2) ?_ ?_
  · exact starts.mono (fun _ _ done => ⟨done.1, fun daemon up => (done.2 daemon up).2.2.1⟩) fun _ safe => safe
  · apply wp_loadMetadataDir_listed held
    · exact fun failure => ⟨held, FilterSet.valid_init, nofun⟩
    · refine (keepsApart_loadEntries env _ missing ⟨.init, .zero⟩ world).mono ?_ fun _ kept => apart kept held
      rintro result later ⟨⟨same, valid⟩, kept⟩
      exact ⟨apart kept held, valid FilterSet.valid_init, fun _ => ⟨same, apart kept held⟩⟩
  · intro entries loading middle _ reached
    refine (cleans entries loading middle reached.2).mono ?_ fun _ safe => safe
    exact fun later last done => ⟨done.1, reached.1, done.2⟩

/-- A filter of the set was listed. -/
theorem listed_of_served {answers rest : List Answer} {daemon : Daemon} {later : World}
    (started : startup env (roots.withMode mode) world answers = .returned (.ok daemon) later rest)
    (served : daemon.set.named name ≠ []) : metaLeaf name ∈ env.metaListing roots world := by
  by_contra missing
  have spec := @wp_startup_unlisted env roots mode name (fun _ => True) world missing trivial (fun _ _ => trivial)
    (fun _ _ _ => trivial)
    fun entries loading middle _ => (wp_cleanupPins_items _ entries loading middle).mono
      (fun _ _ same => ⟨same, trivial⟩) fun _ _ => trivial
  exact served ((spec.returned started).2 daemon rfl)

/-- A filter that its turn puts into the set is passed over by the cleanup. -/
theorem Turn.wp_startup (task : Turn env roots mode name before after crash)
    (listed : metaLeaf name ∈ env.metaListing roots world) (held : before world)
    (served : ∀ world, ¬ after [] world) :
    wp (startup env (roots.withMode mode))
      (fun result later => crash later ∧ ∀ daemon, result = .ok daemon →
        daemon.config = roots.withMode mode ∧ daemon.set.Valid ∧ after (daemon.set.named name) later)
      crash world := by
  refine task.wp_startup_cleaned listed held fun entries loading middle valid reached => ?_
  have present : loading.set.named name ≠ [] := fun empty => served middle (empty ▸ reached)
  refine (keepsApart_cleanupPins mode entries loading valid present middle).mono ?_ ?_
  · exact fun later last kept => ⟨kept.1, task.after_apart kept.2 reached⟩
  · exact fun last apart => task.crash_apart apart (task.ends reached)

end

section

variable {env : Env} {roots : Config} {mode : LogSyncMode} {name : Bytes} {world later : World}
  {record : MetaRecord}

/-- A metadata file that the loader accepts when it can read it -/
structure Accepted (roots : Config) (name : Bytes) (record : MetaRecord) (world : World) : Prop where
  valid : nameIsValid name = true
  fits : (roots.metaPathOf name).length < pathMax
  decoded : ∃ stored, world.fileAt (roots.metaPathOf name) = some (some stored) ∧
    stored.readBack = some record
  named : record.name = name
  under : pathUnderRoot record.pinPath roots.pinRoot = true
  pinned : pathHasName record.pinPath name = true

theorem Accepted.leaf (accepted : Accepted roots name record world) :
    (resolve record.pinPath).leaf = name :=
  leaf_resolve_of_pathHasName (component_of_name accepted.valid) accepted.pinned

theorem Accepted.file (accepted : Accepted roots name record world) :
    ∃ file, world.fileAt (roots.metaPathOf name) = some file := by
  obtain ⟨stored, present, _⟩ := accepted.decoded
  exact ⟨some stored, present⟩

theorem Accepted.of_file (accepted : Accepted roots name record world)
    (same : later.fileAt (roots.metaPathOf name) = world.fileAt (roots.metaPathOf name)) :
    Accepted roots name record later :=
  { accepted with decoded := same ▸ accepted.decoded }

theorem Apart.fileAt (apart : Apart name world later) (valid : nameIsValid name = true) (roots : Config) :
    later.fileAt (roots.metaPathOf name) = world.fileAt (roots.metaPathOf name) :=
  apart.files _ (leaf_metaPathOf roots valid)

theorem Apart.logAt (apart : Apart name world later) (valid : nameIsValid name = true) (roots : Config) :
    later.logAt (roots.logPathOf name) = world.logAt (roots.logPathOf name) :=
  apart.logs _ (leaf_logPathOf roots valid)

theorem Apart.pinAt {path : Bytes} (apart : Apart name world later) (leaf : (resolve path).leaf = name) :
    later.pinAt path = world.pinAt path :=
  apart.pins _ leaf

/-- The file of a filter is listed in the metadata directory. -/
theorem mem_entriesIn_metaRoot (rooted : roots.metaRoot ≠ []) (valid : nameIsValid name = true)
    (present : world.fileAt (roots.metaPathOf name) = some file) :
    metaLeaf name ∈ entriesIn world.files (resolve roots.metaRoot) := by
  have place : resolve (roots.metaPathOf name) = (resolve roots.metaRoot).child (metaLeaf name) :=
    resolve_joined _ _ _ rooted (component_of_valid valid _ (by decide))
  have key : resolve (roots.metaPathOf name) ∈ world.files := by
    rw [← AList.lookup_isSome, show world.files.lookup _ = some file from present]
    rfl
  refine List.mem_filterMap.mpr ⟨resolve (roots.metaPathOf name), key, ?_⟩
  rw [leaf_metaPathOf roots valid, if_pos place]

/-- The metadata in memory of a filter that was loaded from a record -/
def Config.loadedMeta (roots : Config) (name : Bytes) (record : MetaRecord) : FilterMeta :=
  { record with metaPath := roots.metaPathOf name, logPath := roots.logPathOf name }

/-- What the loader has in hand when a file reads well and its paths fit -/
theorem wp_loadRecord_accepted {post : Except Failure Unit × Loading → World → Prop}
    {crash : World → Prop} {loading : Loading} (accepted : Accepted roots name record world)
    (readable : env.reads (roots.metaPathOf name) = .ok) (safe : crash world)
    (failed : ∀ failure, post (.error failure, loading) world)
    (opens : (roots.logPathOf name).length < pathMax →
      wp (openOrRebuild (roots.withMode mode) (roots.loadedMeta name record))
        (fun opened after => wp (match opened with
          | .failed failure => pure (.error failure, loading)
          | .stale => do
            let loading ← quarantine (roots.metaPathOf name) loading
            pure (.ok (), loading)
          | .map record map unpinOnError =>
            admitLoaded loading (roots.metaPathOf name) record map unpinOnError) post crash after)
        crash world) :
    wp (loadRecord env (roots.withMode mode) (roots.metaPathOf name) name loading) post crash world := by
  obtain ⟨stored, present, decoded⟩ := accepted.decoded
  refine wp_bind ((wp_call _).mpr ⟨safe, fun _ => ?_⟩)
  simp only [readable, present, decoded]
  have passes : ¬ (record.name ≠ name ∨ (!pathUnderRoot record.pinPath (roots.withMode mode).pinRoot) = true ∨
      (!pathHasName record.pinPath record.name) = true) := by
    rw [accepted.named, show pathUnderRoot record.pinPath (roots.withMode mode).pinRoot = true from
      accepted.under, accepted.pinned]
    simp
  rw [if_neg passes]
  split
  · exact (wp_pure _).mpr (failed _)
  · rename_i logPath built
    obtain ⟨short, rfl⟩ := joinPath_ok built
    rw [accepted.named] at short ⊢
    exact wp_bind (opens short)

theorem wp_openOrRebuild_pinned {config : Config} {metadata : FilterMeta} {map : Nat}
    (there : world.pinAt metadata.pinPath = some map) :
    wp (openOrRebuild config metadata)
      (fun opened after => after = world ∧
        (opened = .map metadata map false ∨ ∃ failure, opened = .failed failure))
      (fun after => after = world) world := by
  refine wp_bind (wp_attempt rfl (fun errno transient => ?_) ?_)
  · simp only [transient.ne_enoent, ↓reduceIte]
    exact (wp_pure _).mpr ⟨rfl, Or.inr ⟨_, rfl⟩⟩
  · simp only [there]
    exact (wp_pure _).mpr ⟨rfl, Or.inl rfl⟩

/-- The world after a log was opened for appending -/
def World.openLog (world : World) (path : Bytes) : World :=
  match world.logAt path with
  | some _ => world
  | none => world.setLog path .empty

@[simp] theorem openLog_files (world : World) (path : Bytes) : (world.openLog path).files = world.files := by
  unfold World.openLog
  split <;> rfl

@[simp] theorem openLog_pins (world : World) (path : Bytes) : (world.openLog path).pins = world.pins := by
  unfold World.openLog
  split <;> rfl

@[simp] theorem openLog_maps (world : World) (path : Bytes) : (world.openLog path).maps = world.maps := by
  unfold World.openLog
  split <;> rfl

theorem logAt_openLog (world : World) (path : Bytes) :
    (world.openLog path).logAt path = some ((world.logAt path).getD .empty) := by
  unfold World.openLog
  split
  · rename_i log present
    rw [present]
    rfl
  · rename_i missing
    rw [missing]
    simp [World.logAt]

theorem wp_logOpenAppend {path : Bytes} {post : Except Errno Bytes → World → Prop} {crash : World → Prop}
    (safe : crash world) (refused : ∀ errno, Transient errno → post (.error errno) world)
    (done : post (.ok path) (world.openLog path)) : wp (logOpenAppend path) post crash world := by
  refine wp_attempt safe refused ?_
  unfold World.openLog at done
  cases present : world.logAt path with
  | none =>
    rw [present] at done
    exact done
  | some log =>
    rw [present] at done
    exact done

/-- The filter that a load makes of a record and a map, at some time -/
def Config.loaded (roots : Config) (name : Bytes) (record : MetaRecord) (map now : Nat) : Filter :=
  { loadedFilter (roots.loadedMeta name record) map with
    logFd := if record.hasData then some (roots.logPathOf name) else none
    lastLogSyncMs := now }

/-- What the world is after a load: only a filter with data has its log opened. -/
def World.opened (world : World) (roots : Config) (name : Bytes) (record : MetaRecord) : World :=
  if record.hasData then world.openLog (roots.logPathOf name) else world

theorem wp_openLoadedLog_exact (map : Nat) :
    wp (openLoadedLog (loadedFilter (roots.loadedMeta name record) map))
      (fun result after => (after = world ∨ after = world.opened roots name record) ∧
        (result.1 = .ok () → after = world.opened roots name record ∧
          ∃ now, result.2 = roots.loaded name record map now))
      (fun after => after = world ∨ after = world.opened roots name record) world := by
  cases data : record.hasData with
  | false =>
    have closed : (loadedFilter (roots.loadedMeta name record) map).metadata.hasData = false := data
    unfold openLoadedLog
    rw [if_neg (by rw [closed]; decide)]
    refine (wp_pure _).mpr ⟨Or.inl rfl, fun _ => ⟨by simp [World.opened, data], 0, ?_⟩⟩
    simp [Config.loaded, data, loadedFilter, Filter.fresh]
  | true =>
    have open' : (loadedFilter (roots.loadedMeta name record) map).metadata.hasData = true := data
    have opened : world.opened roots name record = world.openLog (roots.logPathOf name) := by
      simp [World.opened, data]
    unfold openLoadedLog
    rw [if_pos open', opened]
    refine wp_bind (wp_logOpenAppend (Or.inl rfl) (fun errno _ => ?_) ?_)
    · exact (wp_pure _).mpr ⟨Or.inl rfl, fun failed => (by cases failed)⟩
    · refine wp_bind ((wp_call _).mpr ⟨Or.inr rfl, fun answer => (wp_pure _).mpr ⟨Or.inr rfl, fun _ => ?_⟩⟩)
      refine ⟨rfl, answer.clock, ?_⟩
      simp [Config.loaded, data, loadedFilter, Filter.fresh, Config.loadedMeta]

theorem FilterSet.findN_of_named {set : FilterSet} (valids : set.Valid) (valid : nameIsValid name = true)
    (missing : set.named name = []) : (set.findN name).1 = none := by
  cases found : (set.findN name).1 with
  | none => rfl
  | some index =>
    obtain ⟨filter, there, same⟩ := FilterSet.findN_name valids valid found
    have member : filter ∈ set.named name := FilterSet.mem_named.mpr ⟨List.mem_of_getElem? there, same⟩
    rw [missing] at member
    exact absurd member List.not_mem_nil

/-- The end of a turn. Only a map that was pinned in this turn is unpinned again. -/
theorem wp_admitLoaded_exact {map : Nat} {loading : Loading} {unpinOnError : Bool}
    (valid : nameIsValid name = true) (named : record.name = name) (missing : loading.set.named name = [])
    (valids : loading.set.Valid) :
    wp (admitLoaded loading (roots.metaPathOf name) (roots.loadedMeta name record) map unpinOnError)
      (fun result after =>
        (unpinOnError = false → after = world ∨ after = world.opened roots name record) ∧
        (result.1 = .ok () → Matched record map world ∧ after = world.opened roots name record ∧
          ∃ now, result.2.set.items = loading.set.items ++ [roots.loaded name record map now]))
      (fun after => unpinOnError = false → after = world ∨ after = world.opened roots name record) world := by
  have cleans : ∀ (failure : Failure) (loading : Loading) (middle : World),
      (middle = world ∨ middle = world.opened roots name record) →
      wp (do
          cleanupEntry (roots.loadedMeta name record) unpinOnError
          pure (.error failure, loading) : Sys (Except Failure Unit × Loading))
        (fun result after =>
          (unpinOnError = false → after = world ∨ after = world.opened roots name record) ∧
          (result.1 = .ok () → Matched record map world ∧ after = world.opened roots name record ∧
            ∃ now, result.2.set.items = loading.set.items ++ [roots.loaded name record map now]))
        (fun after => unpinOnError = false → after = world ∨ after = world.opened roots name record)
        middle := by
    intro failure loading middle reached
    cases unpinOnError with
    | false =>
      exact wp_bind ((wp_pure _).mpr ((wp_pure _).mpr ⟨fun _ => reached, fun failed => (by cases failed)⟩))
    | true =>
      refine wp_bind ((wp_trivial _).mono ?_ fun _ _ impossible => (by cases impossible))
      intro _ after _
      exact (wp_pure _).mpr ⟨fun impossible => (by cases impossible), fun failed => (by cases failed)⟩
  refine wp_bind ((wp_validateOpenPinnedMap _ map world).mono ?_ fun _ same _ => Or.inl same)
  rintro checked after ⟨rfl, matched⟩
  cases checked with
  | error failure => exact cleans failure loading after (Or.inl rfl)
  | ok _ =>
    have matched : Matched record map after := matched rfl
    have unfound : (loading.set.findN (roots.loadedMeta name record).name).1 = none := by
      rw [show (roots.loadedMeta name record).name = name from named]
      exact FilterSet.findN_of_named valids valid missing
    simp only [unfound, Option.isSome_none, Bool.false_eq_true, ↓reduceIte]
    refine wp_bind ((wp_openLoadedLog_exact map).mono ?_ fun _ reached _ => reached)
    rintro ⟨opened, filter⟩ middle ⟨reached, done⟩
    cases opened with
    | error failure =>
      refine (cleans failure _ middle reached).mono (fun result last held => ⟨held.1, fun ok => ?_⟩) fun _ held => held
      obtain ⟨matched, same, now, items⟩ := held.2 ok
      exact ⟨matched, same, now, by simpa using items⟩
    | ok _ =>
      obtain ⟨rfl, now, same⟩ := done rfl
      have same : filter = roots.loaded name record map now := same
      refine wp_bind ((wp_filterSetAdd _ filter _).mono ?_ fun _ same _ => Or.inr same)
      rintro added last ⟨rfl, items⟩
      cases added with
      | error errno =>
        refine (cleans _ _ _ (Or.inr rfl)).mono (fun result last held => ⟨held.1, fun ok => ?_⟩) fun _ held => held
        obtain ⟨matched, same, now, items⟩ := held.2 ok
        exact ⟨matched, same, now, by simpa using items⟩
      | ok set =>
        refine (wp_pure _).mpr ⟨fun _ => Or.inr rfl, fun _ => ⟨matched, rfl, now, ?_⟩⟩
        have grown := items set rfl
        rw [same] at grown
        simpa using grown

/-- The turn of a filter whose pin is there: the map is taken as it is. -/
theorem wp_loadRecord_pinned {map : Nat} {loading : Loading} (accepted : Accepted roots name record world)
    (readable : env.reads (roots.metaPathOf name) = .ok) (there : world.pinAt record.pinPath = some map)
    (missing : loading.set.named name = []) (valids : loading.set.Valid) :
    wp (loadRecord env (roots.withMode mode) (roots.metaPathOf name) name loading)
      (fun result after => (after = world ∨ after = world.opened roots name record) ∧
        (result.1 = .ok () → Matched record map world ∧ after = world.opened roots name record ∧
          ∃ now, result.2.set.items = loading.set.items ++ [roots.loaded name record map now]))
      (fun after => after = world ∨ after = world.opened roots name record) world := by
  refine wp_loadRecord_accepted accepted readable (Or.inl rfl) ?_ fun _ => ?_
  · exact fun failure => ⟨Or.inl rfl, fun failed => (by cases failed)⟩
  · refine (@wp_openOrRebuild_pinned world _ (roots.loadedMeta name record) map there).mono ?_
      fun _ same => Or.inl same
    rintro opened after ⟨rfl, outcome⟩
    rcases outcome with rfl | ⟨failure, rfl⟩
    · refine (wp_admitLoaded_exact accepted.valid accepted.named missing valids).mono ?_ fun _ held => held rfl
      exact fun result last held => ⟨held.1 rfl, held.2⟩
    · exact (wp_pure _).mpr ⟨Or.inl rfl, fun failed => (by cases failed)⟩

end

end Bloomd
