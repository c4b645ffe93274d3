import Bloomd.InspectSemantics
import Mathlib.Data.List.Dedup

/-! The pins that `bloominspect` reports as orphans against those that the cleanup of a
startup removes, after a load that succeeded. -/

namespace Bloomd

open CrashLogic Prog

section Load

variable {env : Env} {roots : Config} {mode : LogSyncMode} {name : Bytes} {record : MetaRecord} {world : World}

/-- What the loader finds for an available record: it is never stale, and when a map is
in hand, no pin of that name was passed over for a rebuild. -/
structure Found (roots : Config) (name : Bytes) (record : MetaRecord) (world : World) (opened : Opened) : Prop where
  present : opened ≠ .stale
  named : ∀ loaded map unpin, opened = .map loaded map unpin →
    ∃ later : MetaRecord, loaded = roots.loadedMeta name later ∧ later.name = name
  kept : ∀ loaded map unpin, opened = .map loaded map unpin → record.hasData = true →
    world.pinAt record.pinPath = none → world.pinAt (roots.pinPathOf name) = none

theorem wp_openOrRebuild_available (named : record.name = name) (available : Available roots name record world) :
    wp (openOrRebuild (roots.withMode mode) (roots.loadedMeta name record))
      (fun opened _ => Found roots name record world opened) (fun _ => True) world := by
  subst named
  have fails : ∀ failure : Failure, Found roots record.name record world (.failed failure) :=
    fun failure => ⟨nofun, nofun, nofun⟩
  have taken : ∀ map, (record.hasData = true → world.pinAt record.pinPath = none →
      world.pinAt (roots.pinPathOf record.name) = none) →
      Found roots record.name record world (.map (roots.loadedMeta record.name record) map false) := by
    intro map kept
    refine ⟨nofun, fun loaded other unpin made => ?_, fun _ _ _ _ => kept⟩
    obtain ⟨rfl, -, -⟩ := Opened.map.inj made
    exact ⟨record, rfl, rfl⟩
  refine wp_bind (wp_attempt trivial (fun errno transient => ?_) ?_)
  · simp only [transient.ne_enoent, ↓reduceIte]
    exact (wp_pure _).mpr (fails _)
  · cases there : world.pinAt record.pinPath with
    | some map =>
      have pinned : world.pinAt (roots.loadedMeta record.name record).pinPath = some map := there
      rw [pinned]
      exact (wp_pure _).mpr (taken map fun _ free => nomatch there.symm.trans free)
    | none =>
      have unpinned : world.pinAt (roots.loadedMeta record.name record).pinPath = none := there
      rw [unpinned]
      simp only [↓reduceIte]
      split
      · rename_i empty
        have fresh : record.hasData = false := (Bool.not_eq_true' _).mp empty
        apply wp_bind
        apply (wp_trivial _).mono _ fun _ held => held
        intro created after _
        cases created with
        | error failure => exact (wp_pure _).mpr (fails failure)
        | ok map => exact (wp_pure _).mpr (taken map fun data => nomatch fresh.symm.trans data)
      · rename_i full
        have data : record.hasData = true := by
          rw [Bool.not_eq_true', Bool.not_eq_false] at full
          exact full
        split
        · exact (wp_pure _).mpr (fails _)
        · obtain ⟨log, present⟩ := Option.ne_none_iff_exists'.mp (available data there)
          have present : world.logAt ((roots.withMode mode).logPathOf (roots.loadedMeta record.name record).name) =
              some log :=
            present
          apply wp_bind
          apply (wp_rebuildFromLog present).mono _ fun _ _ => trivial
          intro result after outcome
          cases outcome with
          | failed failure other =>
            simp only [other, ↓reduceIte]
            exact (wp_pure _).mpr (fails failure)
          | rebuilt fits small free =>
            apply (wp_pure _).mpr
            refine ⟨nofun, fun loaded other unpin made => ?_, fun _ _ _ _ _ _ => free⟩
            obtain ⟨rfl, -, -⟩ := Opened.map.inj made
            exact ⟨{ record with pinPath := roots.pinPathOf record.name }, rfl, rfl⟩

/-- What the success of a load tells about a loadable name -/
structure Servable (roots : Config) (name : Bytes) (record : MetaRecord) (world : World) : Prop where
  placed : (roots.logPathOf name).length < pathMax
  kept : record.hasData = true → world.pinAt record.pinPath = none → world.pinAt (roots.pinPathOf name) = none

/-- A load that succeeds puts every loadable filter into the set. -/
theorem Loadable.turn {begun : World} (readable : env.reads (roots.metaPathOf name) = .ok)
    (accepted : Accepted roots name record begun) (available : Available roots name record begun) :
    Turn env roots mode name (Apart name begun) (fun filters _ => filters ≠ [] ∧ Servable roots name record begun)
      (fun _ => True) where
  valid := accepted.valid
  fits := accepted.fits
  before_apart apart before := IsTrans.trans _ _ _ before apart
  after_apart _ held := held
  crash_apart _ _ := trivial
  crash_changeLog _ _ _ := trivial
  begins _ := trivial
  ends _ := trivial
  turn {loading world} apart missing valids := by
    have acceptedNow := accepted.of_file (apart.fileAt accepted.valid roots)
    have availableNow : Available roots name record world := by
      unfold Available at available ⊢
      rw [apart.pinAt accepted.leaf, apart.logAt accepted.valid roots]
      exact available
    apply wp_loadRecord_accepted acceptedNow readable trivial
    · exact fun failure => ⟨trivial, nofun⟩
    · intro short
      apply (wp_openOrRebuild_available accepted.named availableNow).mono _ fun _ _ => trivial
      intro opened after found
      cases opened with
      | failed failure => exact (wp_pure _).mpr ⟨trivial, nofun⟩
      | stale => exact absurd rfl found.present
      | map loaded map unpin =>
        obtain ⟨later, rfl, named⟩ := found.named loaded map unpin rfl
        apply (wp_admitLoaded_exact accepted.valid named missing valids).mono _ fun _ _ => trivial
        rintro result last ⟨_, done⟩
        refine ⟨trivial, fun succeeded => ?_⟩
        obtain ⟨_, _, now, items⟩ := done succeeded
        refine ⟨?_, short, ?_⟩
        · apply List.ne_nil_of_mem
          apply FilterSet.mem_named.mpr
          constructor
          · rw [items]
            exact List.mem_append_right _ (List.mem_singleton.mpr rfl)
          · exact named
        · rw [← apart.pinAt accepted.leaf, ← apart.pinAt (leaf_pinPathOf roots accepted.valid)]
          exact found.kept _ _ _ rfl

theorem wp_loadEntries_unloadable {begun : World} (valid : nameIsValid name = true)
    (unloadable : ¬ Loadable env roots begun name) (entries : List Bytes) (unique : entries.Nodup) :
    ∀ (loading : Loading) (world : World), Apart name begun world →
      wp (loadEntries env (roots.withMode mode) entries loading)
        (fun _ after => ∀ loc, loc.leaf = name → after.pins.lookup loc = begun.pins.lookup loc)
          (fun _ => True) world := by
  induction entries with
  | nil => exact fun loading world apart => (wp_pure _).mpr apart.pins
  | cons entry rest ih =>
    intro loading world apart
    obtain ⟨fresh, unique⟩ := List.nodup_cons.mp unique
    by_cases own : entry = metaLeaf name
    · subst own
      have turn : wp (loadEntry env (roots.withMode mode) (metaLeaf name) loading)
          (fun _ after => after.pins = world.pins) (fun _ => True) world := by
        by_cases fits : (roots.metaPathOf name).length < pathMax
        · rw [loadEntry_metaLeaf env valid fits]
          apply (wp_loadRecord_unloadable valid fits
            (fun loadable => unloadable (loadable.apart apart valid)) loading).mono
          · exact fun _ _ held => held.2
          · exact fun _ _ => trivial
        · have long : pathMax ≤ (joined (roots.withMode mode).metaRoot (metaLeaf name) []).length := by
            rw [show joined (roots.withMode mode).metaRoot (metaLeaf name) [] = roots.metaPathOf name from
              joined_metaLeaf roots name]
            exact Nat.not_lt.mp fits
          unfold loadEntry
          simp only [hasSuffix_metaLeaf, long, Bool.not_true, Bool.false_eq_true, ↓reduceIte]
          exact (wp_pure _).mpr rfl
      apply wp_bind
      apply turn.mono _ fun _ held => held
      rintro ⟨loaded, later⟩ after pins
      have kept : ∀ loc, loc.leaf = name → after.pins.lookup loc = begun.pins.lookup loc := by
        intro loc leaf
        rw [pins]
        exact apart.pins loc leaf
      cases loaded with
      | error failure => exact (wp_pure _).mpr kept
      | ok done =>
        apply (keepsApart_loadEntries env rest fresh later after).mono _ fun _ _ => trivial
        intro result last held loc leaf
        exact (held.2.pins loc leaf).trans (kept loc leaf)
    · apply wp_bind
      apply (keepsApart_loadEntry env entry own loading world).mono _ fun _ _ => trivial
      rintro ⟨loaded, later⟩ after ⟨_, moved⟩
      have apartLater := IsTrans.trans _ _ _ apart moved
      cases loaded with
      | error failure => exact (wp_pure _).mpr apartLater.pins
      | ok done => exact ih unique later after apartLater

/-- What a load that succeeded made of a world -/
structure LoadedFrom (env : Env) (roots : Config) (world : World) (loading : Loading) (loaded : World) : Prop where
  valid : loading.set.Valid
  serves : ∀ name, loading.set.named name ≠ [] ↔
    metaLeaf name ∈ env.metaListing roots world ∧ Loadable env roots world name
  pins : ∀ name, nameIsValid name = true → ¬ Loadable env roots world name →
    ∀ loc, loc.leaf = name → loaded.pins.lookup loc = world.pins.lookup loc
  servable : ∀ name record, loading.set.named name ≠ [] → env.reads (roots.metaPathOf name) = .ok →
    Accepted roots name record world → Available roots name record world → Servable roots name record world

theorem loadedFrom_of_run {loading : Loading} {loaded : World} {answers rest : List Answer}
    (run : loadMetadataDir env roots ⟨.init, .zero⟩ world answers = .returned (.ok (), loading) loaded rest) :
    LoadedFrom env roots world loading loaded := by
  have unique := env.nodup_metaListing roots world
  have loadable : ∀ filter ∈ loading.set.items, Loadable env roots world filter.name := by
    have spec := @wp_loadEntries_loadable env roots roots.logSyncMode world _ unique ⟨.init, .zero⟩ world nofun
      fun name _ => refl world
    exact (wp_loadMetadataDir_listed trivial (fun _ => nofun) spec).returned run
  have listed : ∀ name, loading.set.named name ≠ [] → metaLeaf name ∈ env.metaListing roots world := by
    intro name served
    by_contra missing
    have apart := @keepsApart_loadEntries roots roots.logSyncMode name env _ missing ⟨.init, .zero⟩ world
    have spec := apart.mono (fun _ _ kept => kept.1.1) fun _ _ => trivial
    exact served ((wp_loadMetadataDir_listed trivial (fun _ => rfl) spec).returned run)
  have served : ∀ name record, metaLeaf name ∈ env.metaListing roots world → env.reads (roots.metaPathOf name) = .ok →
      Accepted roots name record world → Available roots name record world →
      loading.set.named name ≠ [] ∧ Servable roots name record world := by
    intro name record listed readable accepted available
    have turn : Turn env roots roots.logSyncMode name _ _ _ := Loadable.turn readable accepted available
    have spec := turn.wp_loadEntries unique listed ⟨.init, .zero⟩ world (refl world) rfl nofun
    exact ((wp_loadMetadataDir_listed trivial (fun _ => ⟨trivial, nofun, nofun⟩) spec).returned run).2.2 rfl
  constructor
  · intro filter member
    obtain ⟨_, record, accepted, _⟩ := loadable filter member
    exact accepted.valid
  · intro name
    constructor
    · intro some
      obtain ⟨filter, member⟩ := List.exists_mem_of_ne_nil _ some
      obtain ⟨inside, rfl⟩ := FilterSet.mem_named.mp member
      exact ⟨listed _ some, loadable filter inside⟩
    · rintro ⟨given, readable, record, accepted, available⟩
      exact (served name record given readable accepted available).1
  · intro name valid unloadable
    have spec := @wp_loadEntries_unloadable env roots roots.logSyncMode name world valid unloadable _ unique
      ⟨.init, .zero⟩ world (refl world)
    exact (wp_loadMetadataDir_listed trivial (fun _ _ _ => rfl) spec).returned run
  · intro name record some readable accepted available
    exact (served name record (listed name some) readable accepted available).2

/-- The file of a loadable filter is in the directory. -/
theorem Loadable.listed (loadable : Loadable env roots world name) (rooted : roots.metaRoot ≠ [])
    (whole : env.filesCut = none) : metaLeaf name ∈ env.metaListing roots world := by
  obtain ⟨_, record, accepted, _⟩ := loadable
  obtain ⟨file, present⟩ := accepted.file
  exact (env.mem_metaListing whole).mpr (mem_entriesIn_metaRoot rooted accepted.valid present)

end Load

section Cleanup

variable {config : Config} {world : World} {name : Bytes}

theorem mem_entriesIn {α : Type} {table : AList (fun _ : Loc => α)} {dir : Loc} :
    name ∈ entriesIn table dir ↔ table.lookup (dir.child name) ≠ none := by
  have leaf : (dir.child name).leaf = name := by simp [Loc.child, Loc.leaf]
  have key : dir.child name ∈ table ↔ table.lookup (dir.child name) ≠ none := by
    rw [← AList.lookup_isSome, Option.isSome_iff_ne_none]
  rw [← key]
  constructor
  · intro member
    obtain ⟨loc, known, found⟩ := List.mem_filterMap.mp member
    split at found
    · rename_i child
      obtain rfl := Option.some.inj found
      exact child ▸ known
    · cases found
  · intro known
    refine List.mem_filterMap.mpr ⟨dir.child name, known, ?_⟩
    rw [leaf, if_pos rfl]

theorem Loc.entryBelow_child (dir : Loc) (name : Bytes) : dir.entryBelow (dir.child name) = some name := by
  simp [Loc.entryBelow, Loc.child]

theorem mem_pinEntries {dir : Loc} :
    name ∈ pinEntries world dir ↔ ∃ loc ∈ world.pins.keys, dir.entryBelow loc = some name := by
  rw [pinEntries, List.mem_dedup, List.mem_filterMap]

/-- A pin of the directory is one of its entries. -/
theorem mem_pinEntries_of_pin {dir : Loc} (pinned : name ∈ entriesIn world.pins dir) :
    name ∈ pinEntries world dir := by
  rw [mem_entriesIn, ← Option.isSome_iff_ne_none, AList.lookup_isSome] at pinned
  exact mem_pinEntries.mpr ⟨dir.child name, pinned, dir.entryBelow_child name⟩

theorem Env.perm_pinListing (env : Env) (whole : env.pinsCut = none) (config : Config) (world : World) :
    (env.listing env.pinsCut (pinEntries world (resolve config.pinRoot))).Perm
      (pinEntries world (resolve config.pinRoot)) :=
  env.perm_listing fun count cut => by
    rw [whole] at cut
    cases cut

/-- The places of the pins that a cleanup over these entries removes -/
def Swept (config : Config) (set : FilterSet) (entries : List Bytes) (loc : Loc) : Prop :=
  ∃ entry ∈ entries, nameIsValid entry = true ∧ set.named entry = [] ∧
    (config.pinPathOf entry).length < pathMax ∧ loc = resolve (config.pinPathOf entry)

/-- Between the two worlds exactly those pins were removed. -/
def Sweeps (config : Config) (set : FilterSet) (entries : List Bytes) (before after : World) : Prop :=
  ∀ loc, (Swept config set entries loc → after.pins.lookup loc = none) ∧
    (¬ Swept config set entries loc → after.pins.lookup loc = before.pins.lookup loc)

theorem Sweeps.cons {set : FilterSet} {entry : Bytes} {rest : List Bytes} {before middle after : World}
    (first : Sweeps config set [entry] before middle) (others : Sweeps config set rest middle after) :
    Sweeps config set (entry :: rest) before after := by
  intro loc
  have split : Swept config set (entry :: rest) loc ↔ Swept config set [entry] loc ∨ Swept config set rest loc := by
    simp [Swept]
  rw [split]
  constructor
  · intro swept
    by_cases later : Swept config set rest loc
    · exact (others loc).1 later
    · rw [(others loc).2 later]
      exact (first loc).1 (swept.resolve_right later)
  · intro kept
    obtain ⟨here, later⟩ := not_or.mp kept
    rw [(others loc).2 later, (first loc).2 here]

theorem Sweeps.nothing {set : FilterSet} {entry : Bytes} (world : World)
    (spared : ¬ (nameIsValid entry = true ∧ set.named entry = [] ∧ (config.pinPathOf entry).length < pathMax)) :
    Sweeps config set [entry] world world := by
  intro loc
  refine ⟨fun swept => ?_, fun _ => rfl⟩
  obtain ⟨other, member, valid, missing, fits, _⟩ := swept
  obtain rfl := List.mem_singleton.mp member
  exact absurd ⟨valid, missing, fits⟩ spared

/-- The call that unlinks a pin, without faults -/
theorem completes_sysUnlinkPin {set : FilterSet} {entry : Bytes} (valid : nameIsValid entry = true)
    (missing : set.named entry = []) (fits : (config.pinPathOf entry).length < pathMax) :
    Completes (sysUnlinkPin (config.pinPathOf entry))
      (fun _ after => Sweeps config set [entry] world after) world := by
  have here : Swept config set [entry] (resolve (config.pinPathOf entry)) :=
    ⟨entry, List.mem_singleton.mpr rfl, valid, missing, fits, rfl⟩
  have only : ∀ loc, Swept config set [entry] loc → loc = resolve (config.pinPathOf entry) := by
    rintro loc ⟨other, member, _, _, _, rfl⟩
    rw [List.mem_singleton.mp member]
  apply completes_attempt
  cases there : world.pinAt (config.pinPathOf entry) with
  | none =>
    intro loc
    constructor
    · intro swept
      rw [only loc swept]
      exact there
    · exact fun _ => rfl
  | some map =>
    intro loc
    constructor
    · intro swept
      rw [only loc swept]
      exact AList.lookup_erase _ _
    · intro kept
      exact AList.lookup_erase_ne fun same => kept (same ▸ here)

/-- Without faults a cleanup removes every pin it should, and no other. -/
theorem completes_cleanupPins (entries : List Bytes) : ∀ (loading : Loading) (world : World), loading.set.Valid →
    Completes (cleanupPins config entries loading)
      (fun _ after => Sweeps config loading.set entries world after) world := by
  induction entries with
  | nil =>
    intro loading world _
    apply completes_pure
    intro loc
    refine ⟨?_, fun _ => rfl⟩
    rintro ⟨entry, member, _⟩
    cases member
  | cons entry rest ih =>
    intro loading world valids
    have onward : ∀ (later : Loading) (middle : World), later.set.items = loading.set.items →
        Sweeps config loading.set [entry] world middle →
        Completes (cleanupPins config rest later)
          (fun _ after => Sweeps config loading.set (entry :: rest) world after) middle := by
      intro later middle same first
      have named : later.set.named = loading.set.named := funext fun name => FilterSet.named_of_items same name
      apply (ih later middle fun filter member => valids filter (same ▸ member)).mono
      intro _ after others
      apply first.cons
      unfold Sweeps Swept at others ⊢
      rwa [named] at others
    unfold cleanupPins
    split
    · rename_i invalid
      exact onward loading world rfl (.nothing world fun held => by simp [held.1] at invalid)
    · rename_i validity
      have valid : nameIsValid entry = true := by simpa using validity
      simp only
      split
      · rename_i found
        apply onward _ world FilterSet.findN_items
        apply Sweeps.nothing
        rintro ⟨_, missing, _⟩
        rw [FilterSet.findN_of_named valids valid missing] at found
        cases found
      · rename_i unfound
        split
        · rename_i long
          exact onward _ world FilterSet.findN_items (.nothing world fun held => absurd held.2.2 (Nat.not_lt.mpr long))
        · rename_i short
          have missing : loading.set.named entry = [] := by
            by_contra some
            obtain ⟨filter, member⟩ := List.exists_mem_of_ne_nil _ some
            obtain ⟨inside, same⟩ := FilterSet.mem_named.mp member
            exact unfound (FilterSet.findN_isSome valids valid inside same)
          apply completes_bind
          apply (completes_sysUnlinkPin valid missing (Nat.not_le.mp short)).mono
          intro result middle swept
          cases result with
          | error errno => exact onward _ middle FilterSet.findN_items swept
          | ok done => exact onward _ middle FilterSet.findN_items swept

end Cleanup

section Report

variable {env : Env} {config : Config} {world : World} {name : Bytes}

/-- The name joins `loaded_names`. -/
def Listed (env : Env) (config : Config) (world : World) (name : Bytes) : Prop :=
  env.reads (config.metaPathOf name) = .ok ∧ ∃ record, Accepted config name record world ∧
    (config.logPathOf name).length < pathMax ∧ record.hasData = true ∧ world.pinAt record.pinPath ≠ none

theorem Listed.loadable (listed : Listed env config world name) : Loadable env config world name := by
  obtain ⟨readable, record, accepted, _, _, there⟩ := listed
  exact ⟨readable, record, accepted, fun _ free => absurd free there⟩

theorem completes_inspectEntry_listed (entry : Bytes) : Completes (inspectEntry env config entry)
    (fun result after => after = world ∧
      ∀ name, result.2 = some name ↔ entry = metaLeaf name ∧ Listed env config world name) world := by
  have nothing : ∀ finding : Option Finding, (∀ name, entry = metaLeaf name → ¬ Listed env config world name) →
      world = world ∧ ∀ name, (finding, (none : Option Bytes)).2 = some name ↔
        entry = metaLeaf name ∧ Listed env config world name :=
    fun finding unlisted => ⟨rfl, fun name => ⟨nofun, fun held => absurd held.2 (unlisted name held.1)⟩⟩
  by_cases known : ∃ name record, entry = metaLeaf name ∧ env.reads (config.metaPathOf name) = .ok ∧
      Accepted config name record world
  · obtain ⟨name, record, rfl, readable, accepted⟩ := known
    have listed : ∀ other, metaLeaf name = metaLeaf other → (Listed env config world other ↔ other = name ∧
        (config.logPathOf name).length < pathMax ∧ record.hasData = true ∧ world.pinAt record.pinPath ≠ none) := by
      intro other same
      obtain rfl := metaLeaf_injective same
      constructor
      · rintro ⟨_, record', accepted', short, data, there⟩
        obtain rfl := accepted.unique accepted'
        exact ⟨rfl, short, data, there⟩
      · rintro ⟨_, short, data, there⟩
        exact ⟨readable, record, accepted, short, data, there⟩
    apply completes_inspectEntry accepted readable
    · intro long
      apply nothing
      intro other same held
      exact absurd ((listed other same).mp held).2.1 (Nat.not_lt.mpr long)
    · intro short
      cases there : world.pinAt record.pinPath with
      | none =>
        have unpinned : world.pinAt (config.loadedMeta name record).pinPath = none := there
        apply (completes_inspectRecord_unpinned unpinned).mono
        rintro _ _ ⟨rfl, rfl⟩
        apply nothing
        intro other same held
        exact absurd there ((listed other same).mp held).2.2.2
      | some map =>
        have pinned : world.pinAt (config.loadedMeta name record).pinPath = some map := there
        apply (completes_inspectRecord_pinned pinned).mono
        rintro ⟨finding, loaded⟩ after ⟨rfl, added, _⟩
        refine ⟨rfl, fun other => ?_⟩
        have added : loaded = if record.hasData then some record.name else none := added
        rw [added, accepted.named]
        cases data : record.hasData with
        | false =>
          apply iff_of_false nofun
          rintro ⟨same, held⟩
          exact nomatch data.symm.trans ((listed other same).mp held).2.2.1
        | true =>
          constructor
          · intro same
            obtain rfl := Option.some.inj same
            exact ⟨rfl, (listed name rfl).mpr ⟨rfl, short, data, there ▸ nofun⟩⟩
          · rintro ⟨same, _⟩
            exact congrArg some (metaLeaf_injective same)
  · have unlisted : ∀ name, entry = metaLeaf name → ¬ Listed env config world name := by
      rintro name same ⟨readable, record, accepted, _⟩
      exact known ⟨name, record, same, readable, accepted⟩
    by_cases suffixed : hasSuffix entry (bytes ".meta") = true
    · rcases unusable_or_accepted suffixed with ⟨path, inspected, _⟩ | accepted
      · apply inspected.mono
        rintro _ _ ⟨rfl, rfl⟩
        exact nothing _ unlisted
      · exact absurd accepted known
    · unfold inspectEntry
      rw [if_pos (by simpa using suffixed)]
      exact completes_pure _ (nothing _ unlisted)

theorem completes_inspectEntries (entries : List Bytes) : Completes (inspectEntries env config entries)
    (fun result after => after = world ∧
      ∀ name, name ∈ result.2 ↔ metaLeaf name ∈ entries ∧ Listed env config world name) world := by
  induction entries with
  | nil => exact completes_pure _ ⟨rfl, fun name => ⟨nofun, fun held => nomatch held.1⟩⟩
  | cons entry rest ih =>
    apply completes_bind
    apply (completes_inspectEntry_listed entry).mono
    rintro ⟨finding, loaded⟩ _ ⟨rfl, first⟩
    apply completes_bind
    apply ih.mono
    rintro ⟨findings, names⟩ _ ⟨rfl, others⟩
    apply completes_pure
    refine ⟨rfl, fun name => ?_⟩
    simp only [List.mem_append, Option.mem_toList, List.mem_cons]
    rw [first name, others name]
    constructor
    · rintro (⟨rfl, listed⟩ | ⟨member, listed⟩)
      · exact ⟨Or.inl rfl, listed⟩
      · exact ⟨Or.inr member, listed⟩
    · rintro ⟨rfl | member, listed⟩
      · exact Or.inl ⟨rfl, listed⟩
      · exact Or.inr ⟨member, listed⟩

/-- The names that the report gives as orphans -/
theorem completes_inspect (rooted : config.metaRoot ≠ []) (whole : env.filesCut = none)
    (wholePins : env.pinsCut = none) : Completes (inspect env config)
    (fun result _ => ∃ report, result = .ok report ∧ ∀ name, name ∈ report.orphans ↔
      name ∈ pinEntries world (resolve config.pinRoot) ∧ nameIsValid name = true ∧
        ¬ Listed env config world name) world := by
  apply completes_bind
  apply completes_attempt
  apply completes_bind
  apply completes_attempt
  apply completes_bind
  apply (completes_inspectEntries _).mono
  rintro ⟨findings, loaded⟩ _ ⟨-, listed⟩
  apply completes_pure
  refine ⟨_, rfl, fun name => ?_⟩
  have known : name ∈ loaded ↔ Listed env config world name := by
    rw [show name ∈ loaded ↔ metaLeaf name ∈ env.metaListing config world ∧ Listed env config world name from
      listed name]
    exact ⟨And.right, fun held => ⟨held.loadable.listed rooted whole, held⟩⟩
  simp only [orphanPins, List.mem_filter, Bool.and_eq_true, Bool.not_eq_true', ← Bool.not_eq_true,
    List.contains_iff_mem]
  rw [(env.perm_pinListing wholePins config world).mem_iff, known]

theorem resolve_pinPathOf (rooted : config.pinRoot ≠ []) (valid : nameIsValid name = true) :
    resolve (config.pinPathOf name) = (resolve config.pinRoot).child name := by
  have component := component_of_valid valid [] (by decide)
  have placed := resolve_joined config.pinRoot name [] rooted component
  rwa [List.append_nil] at placed

end Report

section Prediction

variable {env : Env} {config : Config} {world : World}

end Prediction

/-- A record of the small installation whose pin is missing -/
def unpinnedRecord (logClean : Bool) : MetaRecord where
  name := demoName
  backend := backendName
  digest := digestName
  pinPath := bytes "/p/x"
  capacity := 100
  errorRate := 0x3f847ae147ae147b
  hashes := 3
  valueSize := digestSize
  version := metadataVersion
  hasData := true
  logClean := logClean

/-- A filter that can be rebuilt, and a pin that belongs to none -/
def rebuildableWorld : World :=
  (((World.empty.setFile (bytes "/m/x.meta") (some (unpinnedRecord true))).setLog (bytes "/m/x.digests")
    ⟨List.replicate 16 7, []⟩).addMap ⟨createdMapInfo 100 3, []⟩).setPin (bytes "/p/y") 0

end Bloomd
