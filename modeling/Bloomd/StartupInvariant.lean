import Bloomd.RequestInvariant

/-! A startup keeps every filter, and with it every run of the system does. -/

namespace Bloomd

open CrashLogic Prog

section

variable {roots : Config} {upkeep : Upkeep roots} {mode : LogSyncMode} {name : Bytes}
  {history : List Digest} {world : World}

/-- Where the loader looks for the record of a name -/
theorem joined_metaLeaf (config : Config) (name : Bytes) :
    joined config.metaRoot (metaLeaf name) [] = config.metaPathOf name := by
  simp [joined, metaLeaf, Config.metaPathOf]

theorem placed_of_read {record : MetaRecord} (valid : nameIsValid name = true)
    (named : record.name = name) (pin : pathHasName record.pinPath record.name = true) :
    Placed roots { record with
      metaPath := roots.metaPathOf name, logPath := roots.logPathOf name } where
  valid := named.symm ▸ valid
  file := by simp [named]
  log := by simp [named]
  pin := leaf_resolve_of_pathHasName (component_of_name (named.symm ▸ valid)) pin

theorem wp_metaReadFile (env : Env) (path : Bytes) (world : World) :
    wp (metaReadFile env path)
      (fun result after => after = world ∧ ∀ metadata, result = .ok metadata →
        ∃ stored record, world.fileAt path = some (some stored) ∧ stored.readBack = some record ∧
          metadata = { record with metaPath := path, logPath := [] })
      (fun after => after = world) world := by
  refine (wp_call _).mpr ⟨rfl, fun _ => ?_⟩
  cases reads : env.reads path with
  | openFails fault => exact ⟨rfl, fun _ failed => by cases failed⟩
  | readFails =>
    cases present : world.fileAt path with
    | none => exact ⟨rfl, fun _ failed => by cases failed⟩
    | some file => exact ⟨rfl, fun _ failed => by cases failed⟩
  | ok =>
    cases present : world.fileAt path with
    | none => exact ⟨rfl, fun _ failed => by cases failed⟩
    | some file =>
      cases file with
      | none => exact ⟨rfl, fun _ failed => by cases failed⟩
      | some stored =>
        cases read : stored.readBack with
        | none => exact ⟨by simp only [read], fun _ failed => by simp [read] at failed⟩
        | some record =>
          refine ⟨by simp only [read], fun _ same => ⟨stored, record, rfl, read, ?_⟩⟩
          simp only [read, Except.ok.injEq] at same
          exact same.symm

/-- Quarantine renames the file away or leaves everything as it is. -/
theorem wp_quarantine (valid : nameIsValid name = true) (disk : upkeep.disk name history world)
    (loading : Loading) :
    wp (quarantine (roots.metaPathOf name) loading)
      (fun later after => later.set = loading.set ∧ upkeep.disk name history after)
      (fun after => upkeep.disk name history after) world := by
  have recovers : wp (metaRecoverStale (roots.metaPathOf name))
      (fun _ after => upkeep.disk name history after)
      (fun after => upkeep.disk name history after) world := by
    refine wp_bind ((wp_call _).mpr ⟨disk, fun answer => ?_⟩)
    simp only
    split
    · exact (wp_pure _).mpr disk
    · refine wp_attempt disk (fun _ _ => disk) ?_
      split
      · refine upkeep.absent valid ?_
        have different : resolve (roots.metaPathOf name) ≠
            resolve (roots.metaPathOf name ++ bytes ".stale." ++ natText answer.clock) := by
          intro same
          have leaf := congrArg Loc.leaf same
          rw [leaf_metaPathOf roots valid, leaf_copy roots valid _ (by decide)] at leaf
          exact copy_ne_metaLeaf _ _ _ leaf.symm
        simp only [World.fileAt, World.setFile_files, World.dropFile_files]
        rw [AList.lookup_insert_ne different, AList.lookup_erase]
      · exact disk
  exact wp_bind (recovers.mono (fun _ _ held => (wp_pure _).mpr ⟨rfl, held⟩) fun _ held => held)

theorem wp_cleanupEntry {record : FilterMeta} (placed : Placed roots record)
    (disk : upkeep.disk record.name history world) (unpinOnError : Bool) :
    wp (cleanupEntry record unpinOnError) (fun _ after => upkeep.disk record.name history after)
      (fun after => upkeep.disk record.name history after) world := by
  unfold cleanupEntry
  split
  · have unpins : wp (bpfUnpin record.pinPath)
        (fun _ after => upkeep.disk record.name history after)
        (fun after => upkeep.disk record.name history after) world :=
      wp_bpfUnpin disk (upkeep.unpinned placed.pin disk)
    exact wp_bind (unpins.mono (fun _ _ held => (wp_pure _).mpr held) fun _ held => held)
  · exact (wp_pure _).mpr disk

theorem wp_validateOpenPinnedMap (record : FilterMeta) (map : Nat) (world : World) :
    wp (validateOpenPinnedMap record map)
      (fun result after => after = world ∧ (result = .ok () → Matched record.toMetaRecord map world))
      (fun after => after = world) world := by
  have asks : wp (bpfGetMapInfo map)
      (fun result after => after = world ∧ ∀ info, result = .ok info →
        ∃ kernel, world.maps[map]? = some kernel ∧ kernel.info = info)
      (fun after => after = world) world := by
    have gets : wp (sysMapInfo map)
        (fun result after => after = world ∧ ∀ info, result = .ok info →
          ∃ kernel, world.maps[map]? = some kernel ∧ kernel.info = info)
        (fun after => after = world) world := by
      refine wp_attempt rfl (fun _ _ => ⟨rfl, fun _ failed => by cases failed⟩) ?_
      cases present : world.maps[map]? with
      | none => exact ⟨rfl, fun _ failed => by cases failed⟩
      | some kernel => exact ⟨rfl, fun _ same => ⟨kernel, rfl, by cases same; rfl⟩⟩
    refine wp_bind (gets.mono ?_ fun _ same => same)
    rintro result after ⟨rfl, held⟩
    cases result with
    | ok info => exact (wp_pure _).mpr ⟨rfl, fun _ same => held _ (by cases same; rfl)⟩
    | error errno => exact (wp_pure _).mpr ⟨rfl, fun _ failed => by cases failed⟩
  refine wp_bind (asks.mono ?_ fun _ same => same)
  rintro result after ⟨rfl, held⟩
  cases result with
  | error failure => exact (wp_pure _).mpr ⟨rfl, fun failed => by cases failed⟩
  | ok info =>
    obtain ⟨kernel, there, rfl⟩ := held info rfl
    simp only
    split
    · exact (wp_pure _).mpr ⟨rfl, fun failed => by cases failed⟩
    · rename_i agree
      refine (wp_pure _).mpr ⟨rfl, fun _ => ⟨kernel, there, ?_⟩⟩
      simp only [not_or, Decidable.not_not] at agree
      exact ⟨agree.1, agree.2.1, agree.2.2.1, agree.2.2.2.1, agree.2.2.2.2⟩

/-- What one turn of the load loop leaves: the set as it was and the filter on
disk, or the filter at the end of the set. -/
def Turned (upkeep : Upkeep roots) (mode : LogSyncMode) (name : Bytes) (history : List Digest)
    (before later : FilterSet) (world : World) : Prop :=
  (later.items = before.items ∧ upkeep.disk name history world) ∨
    ∃ filter, later.items = before.items ++ [filter] ∧ filter.name = name ∧
      Settled roots filter world ∧ upkeep.live mode filter history world

theorem seated_loadedFilter {record : FilterMeta} (placed : Placed roots record) (map : Nat) :
    Seated roots (loadedFilter record map) := ⟨placed, Or.inl rfl⟩

theorem wp_addLoaded {record : FilterMeta} {loading : Loading} (placed : Placed roots record)
    (matched : Matched record.toMetaRecord map world)
    (opens : wp (openLoadedLog (loadedFilter record map))
      (fun result after => upkeep.disk record.name history after ∧
        (result.1 = .ok () → upkeep.live mode result.2 history after))
      (fun after => upkeep.disk record.name history after) world) (unpinOnError : Bool) :
    wp (addLoaded loading record map unpinOnError)
      (fun result after =>
        Turned upkeep mode record.name history loading.set result.2.set after)
      (fun after => upkeep.disk record.name history after) world := by
  have seated := seated_loadedFilter placed map
  refine wp_bind ((wp_within (loadedFilter record map).name (keeps_openLoadedLog seated) opens).mono ?_
    fun _ held => held.1)
  rintro ⟨opened, filter⟩ after ⟨⟨disk, live⟩, follows, within⟩
  cases opened with
  | error failure =>
    refine wp_bind ((wp_cleanupEntry placed disk unpinOnError).mono ?_ fun _ held => held)
    exact fun _ _ held => (wp_pure _).mpr (Or.inl ⟨rfl, held⟩)
  | ok done =>
    have live := live rfl
    refine wp_bind ((wp_filterSetAdd loading.set filter after).mono ?_ fun _ same => same ▸ disk)
    rintro added last ⟨rfl, items⟩
    cases added with
    | error errno =>
      refine wp_bind ((wp_cleanupEntry placed disk unpinOnError).mono ?_ fun _ held => held)
      exact fun _ _ held => (wp_pure _).mpr (Or.inl ⟨rfl, held⟩)
    | ok set =>
      have settled : Settled roots (loadedFilter record map) world := ⟨seated, matched⟩
      exact (wp_pure _).mpr (Or.inr ⟨filter, items set rfl, follows.name,
        settled.follows follows within.maps, live⟩)

theorem wp_admitLoaded {record : FilterMeta} {loading : Loading} (placed : Placed roots record)
    (disk : upkeep.disk record.name history world)
    (opens : Matched record.toMetaRecord map world → wp (openLoadedLog (loadedFilter record map))
      (fun result after => upkeep.disk record.name history after ∧
        (result.1 = .ok () → upkeep.live mode result.2 history after))
      (fun after => upkeep.disk record.name history after) world) (unpinOnError : Bool) :
    wp (admitLoaded loading (roots.metaPathOf record.name) record map unpinOnError)
      (fun result after =>
        Turned upkeep mode record.name history loading.set result.2.set after)
      (fun after => upkeep.disk record.name history after) world := by
  refine wp_bind ((wp_validateOpenPinnedMap record map world).mono ?_ fun _ same => same ▸ disk)
  rintro checked after ⟨rfl, matched⟩
  cases checked with
  | error failure =>
    refine wp_bind ((wp_cleanupEntry placed disk unpinOnError).mono ?_ fun _ held => held)
    exact fun _ _ held => (wp_pure _).mpr (Or.inl ⟨rfl, held⟩)
  | ok done =>
    have matched := matched rfl
    simp only
    split
    · refine wp_bind ((wp_quarantine placed.valid disk _).mono ?_ fun _ held => held)
      rintro later middle ⟨same, disk⟩
      refine wp_bind ((wp_cleanupEntry placed disk unpinOnError).mono ?_ fun _ held => held)
      exact fun _ _ held => (wp_pure _).mpr (Or.inl ⟨by rw [same]; simp, held⟩)
    · refine (wp_addLoaded placed matched (opens matched) unpinOnError).mono ?_ fun _ held => held
      intro result last turned
      simpa [Turned] using turned

theorem wp_loadRecord (env : Env) {loading : Loading} (valid : nameIsValid name = true)
    (disk : upkeep.disk name history world) :
    wp (loadRecord env (roots.withMode mode) (roots.metaPathOf name) name loading)
      (fun result after => Turned upkeep mode name history loading.set result.2.set after)
      (fun after => upkeep.disk name history after) world := by
  have quarantines : ∀ before, upkeep.disk name history before →
      wp (do
          let later ← quarantine (roots.metaPathOf name) loading
          pure (.ok (), later) : Sys (Except Failure Unit × Loading))
        (fun result after => Turned upkeep mode name history loading.set result.2.set after)
        (fun after => upkeep.disk name history after) before := by
    intro before disk
    refine wp_bind ((wp_quarantine valid disk loading).mono ?_ fun _ held => held)
    rintro later after ⟨same, held⟩
    exact (wp_pure _).mpr (Or.inl ⟨by rw [same], held⟩)
  refine wp_bind ((wp_metaReadFile env _ world).mono ?_ fun _ same => same ▸ disk)
  rintro result after ⟨rfl, read⟩
  cases result with
  | error errno => exact quarantines after disk
  | ok metadata =>
    obtain ⟨stored, record, present, readable, rfl⟩ := read _ rfl
    simp only
    split
    · exact quarantines after disk
    · rename_i accepted
      simp only [not_or, ne_eq, Decidable.not_not, Bool.not_eq_true', Bool.not_eq_false] at accepted
      obtain ⟨named, under, pinned⟩ := accepted
      split
      · exact (wp_pure _).mpr (Or.inl ⟨rfl, disk⟩)
      · rename_i logPath built
        obtain rfl : logPath = roots.logPathOf name := by
          rw [(joinPath_ok built).2, named]
          rfl
        have placed : Placed roots { record with
            metaPath := roots.metaPathOf name, logPath := roots.logPathOf name } :=
          placed_of_read valid named pinned
        have loads := (upkeep.load mode valid disk present readable named (placed.pin.trans named) under).keeps
          (staysWithin_openOrRebuild (placed.withMode mode))
        refine wp_bind (loads.mono ?_ fun _ held => held.1)
        rintro opened middle ⟨⟨disk, opens⟩, fits, _⟩
        cases opened with
        | failed failure => exact (wp_pure _).mpr (Or.inl ⟨rfl, disk⟩)
        | stale => exact quarantines middle disk
        | map loaded map unpinOnError =>
          obtain ⟨fitting, same⟩ := fits
          obtain rfl : loaded.name = name := same.trans named
          exact wp_admitLoaded fitting.ofMode disk opens unpinOnError

theorem staysWithin_validate (record : FilterMeta) (map : Nat) :
    StaysWithin name (validateOpenPinnedMap record map) fun _ => True := by
  have asks : StaysWithin name (bpfGetMapInfo map) fun _ => True :=
    keeps_withFailure _ (keeps_attempt fun world => by split <;> exact refl world)
  refine .bind asks fun result _ => ?_
  cases result with
  | error failure => exact .pure trivial
  | ok info =>
    simp only
    split
    · exact .pure trivial
    · exact .pure trivial

theorem staysWithin_addLoaded {record : FilterMeta} (placed : Placed roots record)
    (loading : Loading) (map : Nat) (unpinOnError : Bool) :
    StaysWithin record.name (addLoaded loading record map unpinOnError) fun _ => True := by
  have opens : StaysWithin (loadedFilter record map).name (openLoadedLog (loadedFilter record map))
      fun result => Follows roots (loadedFilter record map) result.2 :=
    keeps_openLoadedLog (seated_loadedFilter placed map)
  refine .bind opens fun (opened, filter) _ => ?_
  cases opened with
  | error failure => exact .bind (keeps_cleanupEntry placed _) fun _ _ => .pure trivial
  | ok done =>
    refine .bind (keeps_filterSetAdd loading.set filter) fun added _ => ?_
    cases added with
    | error errno => exact .bind (keeps_cleanupEntry placed _) fun _ _ => .pure trivial
    | ok set => exact .pure trivial

theorem staysWithin_loadRecord (env : Env) (valid : nameIsValid name = true) (loading : Loading) :
    StaysWithin name (loadRecord env (roots.withMode mode) (roots.metaPathOf name) name loading)
      fun _ => True := by
  have quarantines : ∀ loading, StaysWithin name (quarantine (roots.metaPathOf name) loading)
      fun _ => True := by
    intro loading
    refine (keeps_quarantine (leaf_metaPathOf roots valid) (fun now => ?_) loading).mono
      fun _ _ => trivial
    rw [leaf_copy roots valid _ (by decide)]
    exact ⟨_, _, rfl⟩
  have reads : StaysWithin name (metaReadFile env (roots.metaPathOf name)) fun result =>
      ∀ metadata, result = .ok metadata → metadata.metaPath = roots.metaPathOf name := by
    intro world
    refine (wp_metaReadFile env _ world).mono ?_ ?_
    · rintro result after ⟨rfl, read⟩
      refine ⟨fun metadata same => ?_, refl after⟩
      obtain ⟨_, record, _, _, rfl⟩ := read metadata same
      rfl
    · rintro after rfl
      exact refl after
  refine .bind reads fun result own => ?_
  cases result with
  | error errno => exact .bind (quarantines loading) fun _ _ => .pure trivial
  | ok metadata =>
    have own := own metadata rfl
    simp only
    split
    · exact .bind (quarantines loading) fun _ _ => .pure trivial
    · rename_i accepted
      simp only [not_or, ne_eq, Decidable.not_not, Bool.not_eq_true', Bool.not_eq_false] at accepted
      obtain ⟨named, _, pinned⟩ := accepted
      split
      · exact .pure trivial
      · rename_i logPath built
        obtain rfl : logPath = roots.logPathOf name := by
          rw [(joinPath_ok built).2, named]
          rfl
        have placed : Placed (roots.withMode mode) { metadata with logPath := roots.logPathOf name } := by
          have fits : Placed roots { metadata with
              metaPath := roots.metaPathOf name, logPath := roots.logPathOf name } :=
            placed_of_read valid named pinned
          exact ⟨fits.valid, own.trans fits.file, fits.log, fits.pin⟩
        have opens := staysWithin_openOrRebuild placed
        rw [show ({ metadata with logPath := roots.logPathOf name } : FilterMeta).name = name from named]
          at opens
        refine .bind opens fun opened fits => ?_
        cases opened with
        | failed failure => exact .pure trivial
        | stale => exact .bind (quarantines loading) fun _ _ => .pure trivial
        | map loaded map unpinOnError =>
          obtain ⟨fitting, same⟩ := fits
          have cleans : StaysWithin loaded.name (cleanupEntry loaded unpinOnError) fun _ => True :=
            keeps_cleanupEntry fitting unpinOnError
          have adds := fun loading => staysWithin_addLoaded fitting loading map unpinOnError
          rw [same] at cleans
          refine .bind (staysWithin_validate _ _) fun checked _ => ?_
          cases checked with
          | error failure => exact .bind cleans fun _ _ => .pure trivial
          | ok done =>
            simp only
            split
            · exact .bind (quarantines _) fun _ _ => .bind cleans fun _ _ => .pure trivial
            · rw [← same]
              exact adds _

/-- Work on another filter leaves this one alone. -/
theorem StaysWithin.apart {other : Bytes} {prog : Sys α} {good : α → Prop}
    (stays : StaysWithin other prog good) (different : name ≠ other) : Keeps (Apart name) prog good :=
  fun world => (stays world).mono (fun _ _ held => ⟨held.1, held.2.apart different⟩)
    fun _ held => held.apart different

variable {added : Bytes → List Digest}

/-- One turn of the load loop for an entry that no filter in memory stands for -/
theorem wp_loadEntry (env : Env) (entry : Bytes) {loading : Loading}
    (tended : Tended upkeep mode loading.set.items added world)
    (missing : ∀ filter ∈ loading.set.items, metaLeaf filter.name ≠ entry) :
    wp (loadEntry env (roots.withMode mode) entry loading)
      (fun result after => Tended upkeep mode result.2.set.items added after ∧
        ∀ filter ∈ result.2.set.items, filter ∈ loading.set.items ∨ metaLeaf filter.name = entry)
      (fun after => Resting upkeep added after) world := by
  have skipped : ∀ result : Except Failure Unit × Loading, result.2 = loading →
      Tended upkeep mode result.2.set.items added world ∧
        ∀ filter ∈ result.2.set.items, filter ∈ loading.set.items ∨ metaLeaf filter.name = entry := by
    rintro result same
    rw [same]
    exact ⟨tended, fun filter member => Or.inl member⟩
  unfold loadEntry
  split
  · exact (wp_pure _).mpr (skipped _ rfl)
  · simp only
    split
    · exact (wp_pure _).mpr (skipped _ rfl)
    · split
      · exact (wp_pure _).mpr (skipped _ rfl)
      · rename_i name named
        obtain ⟨rfl, valid⟩ := metaEntryName_ok named
        have unserved : ∀ filter ∈ loading.set.items, filter.name ≠ name :=
          fun filter member same => missing filter member (congrArg metaLeaf same)
        have disk := tended.disk name valid unserved
        rw [show joined (roots.withMode mode).metaRoot (metaLeaf name) [] = roots.metaPathOf name from
          joined_metaLeaf roots name]
        refine ((wp_loadRecord env valid disk).keeps (staysWithin_loadRecord env valid loading)).mono ?_ ?_
        · rintro result after ⟨turned, _, within⟩
          rcases turned with ⟨same, disk⟩ | ⟨filter, grown, rfl, settled, live⟩
          · rw [same]
            exact ⟨tended.beside unserved within (fun _ _ => rfl) fun _ => disk,
              fun filter member => Or.inl member⟩
          · rw [grown]
            refine ⟨tended.push unserved within settled (fun _ _ => rfl) live, ?_⟩
            intro other member
            rcases List.mem_append.mp member with old | new
            · exact Or.inl old
            · rw [List.mem_singleton.mp new]
              exact Or.inr rfl
        · rintro after ⟨disk, within⟩
          exact tended.crash.within within (fun _ _ => rfl) disk

theorem wp_loadEntries (env : Env) (entries : List Bytes) (unique : entries.Nodup) :
    ∀ (loading : Loading) (world : World), Tended upkeep mode loading.set.items added world →
      (∀ filter ∈ loading.set.items, metaLeaf filter.name ∉ entries) →
      wp (loadEntries env (roots.withMode mode) entries loading)
        (fun result after => Tended upkeep mode result.2.set.items added after)
        (fun after => Resting upkeep added after) world := by
  induction entries with
  | nil => exact fun loading world tended _ => (wp_pure _).mpr tended
  | cons entry rest ih =>
    intro loading world tended missing
    obtain ⟨fresh, unique⟩ := List.nodup_cons.mp unique
    have turn := wp_loadEntry env entry tended fun filter member same =>
      missing filter member (same ▸ List.mem_cons_self)
    refine wp_bind (turn.mono ?_ fun _ held => held)
    rintro ⟨loaded, later⟩ after ⟨tended, items⟩
    cases loaded with
    | error failure => exact (wp_pure _).mpr tended
    | ok done =>
      refine ih unique later after tended ?_
      intro filter member listed
      rcases items filter member with old | same
      · exact missing filter old (List.mem_cons_of_mem _ listed)
      · exact fresh (same ▸ listed)

theorem nodup_entriesIn {α : Type} (table : AList (fun _ : Loc => α)) (dir : Loc) :
    (entriesIn table dir).Nodup := by
  refine List.Nodup.filterMap ?_ table.keys_nodup
  intro left right leaf first second
  simp only [Option.mem_def, Option.ite_none_right_eq_some, Option.some.injEq] at first second
  rw [first.1, second.1, first.2, second.2]

theorem Env.listing_prefix (env : Env) (cut : Option Nat) (entries : List Bytes) :
    env.listing cut entries <+: env.order entries := by
  cases cut with
  | none => exact List.prefix_rfl
  | some count => exact List.take_prefix _ _

theorem Env.nodup_listing (env : Env) (cut : Option Nat) {entries : List Bytes} (unique : entries.Nodup) :
    (env.listing cut entries).Nodup :=
  (env.listing_prefix cut entries).sublist.nodup ((env.perm entries).nodup_iff.mpr unique)

/-- A listing that an error does not cut short has every entry. -/
theorem Env.perm_listing (env : Env) {cut : Option Nat} {entries : List Bytes}
    (whole : ∀ count, cut = some count → entries.length ≤ count) : (env.listing cut entries).Perm entries := by
  cases cut with
  | none => exact env.perm entries
  | some count =>
    have long : (env.order entries).length ≤ count := by
      rw [(env.perm entries).length_eq]
      exact whole count rfl
    change ((env.order entries).take count).Perm entries
    rw [List.take_of_length_le long]
    exact env.perm entries

theorem wp_loadMetadataDir (env : Env) (stats : Stats) (resting : Resting upkeep added world) :
    wp (loadMetadataDir env (roots.withMode mode) ⟨.init, stats⟩)
      (fun result after => Tended upkeep mode result.2.set.items added after)
      (fun after => Resting upkeep added after) world := by
  have empty : Tended upkeep mode FilterSet.init.items added world :=
    ⟨fun _ member => absurd member List.not_mem_nil, List.nodup_nil,
      fun _ member => absurd member List.not_mem_nil, fun name valid _ => resting name valid⟩
  refine wp_bind (wp_attempt resting (fun errno _ => ?_) ?_)
  · simp only
    split
    · exact (wp_pure _).mpr empty
    · exact (wp_pure _).mpr empty
  · refine wp_loadEntries env _ ?_ _ _ empty fun _ member => absurd member List.not_mem_nil
    exact env.nodup_listing _ (nodup_entriesIn _ _)

theorem wp_cleanupPins (mode : LogSyncMode) (entries : List Bytes) :
    ∀ (loading : Loading) (world : World), Tended upkeep mode loading.set.items added world →
      wp (cleanupPins (roots.withMode mode) entries loading)
        (fun later after => Tended upkeep mode later.set.items added after)
        (fun after => Resting upkeep added after) world := by
  induction entries with
  | nil => exact fun loading world tended => (wp_pure _).mpr tended
  | cons entry rest ih =>
    intro loading world tended
    unfold cleanupPins
    split
    · exact ih loading world tended
    · rename_i named
      have valid : nameIsValid entry = true := by simpa using named
      have served : ∀ filter ∈ loading.set.items, nameIsValid filter.name = true :=
        fun filter member => (tended.settled filter member).seated.placed.valid
      simp only
      split
      · exact ih _ world (by simpa using tended)
      · rename_i unfound
        split
        · exact ih _ world (by simpa using tended)
        · have missing := FilterSet.findN_missing served valid (by simpa using unfound)
          have leaf : (resolve (joined (roots.withMode mode).pinRoot entry [])).leaf = entry :=
            leaf_pinPathOf roots valid
          have unlinks : wp (sysUnlinkPin (joined (roots.withMode mode).pinRoot entry []))
              (fun _ after => Tended upkeep mode loading.set.items added after)
              (fun after => Tended upkeep mode loading.set.items added after) world := by
            refine wp_attempt tended (fun _ _ => tended) ?_
            split
            · exact tended.beside missing (.dropPin world leaf) (fun _ _ => rfl) fun _ =>
                upkeep.unpinned leaf (tended.disk entry valid missing)
            · exact tended
          refine wp_bind (unlinks.mono ?_ fun _ held => held.crash)
          intro result after tended
          cases result with
          | error errno => exact ih _ after (by simpa using tended)
          | ok done => exact ih _ after (by simpa using tended)

/-- A startup from disks in order serves filters in order. -/
theorem wp_startup (env : Env) (mode : LogSyncMode) (resting : Resting upkeep added world) :
    wp (startup env (roots.withMode mode))
      (fun result after => match result with
        | .ok daemon => Serving upkeep daemon added after
        | .error _ => Resting upkeep added after)
      (fun after => Resting upkeep added after) world := by
  have frees : ∀ (set : FilterSet) (after : World), Tended upkeep mode set.items added after →
      wp (filterSetFree set) (fun _ last => Resting upkeep added last)
        (fun last => Resting upkeep added last) after :=
    fun set after tended => wp_freeFilters set.items after tended.crash
      fun filter member => (tended.settled filter member).seated
  refine wp_bind ((wp_loadMetadataDir env .zero resting).mono ?_ fun _ held => held)
  rintro ⟨loaded, loading⟩ after tended
  cases loaded with
  | error failure =>
    exact wp_bind ((frees loading.set after tended).mono (fun _ _ held => (wp_pure _).mpr held)
      fun _ held => held)
  | ok done =>
    have cleans : wp (cleanupOrphanPins env (roots.withMode mode) loading)
        (fun result last => Tended upkeep mode result.2.set.items added last)
        (fun last => Resting upkeep added last) after := by
      refine wp_bind (wp_attempt tended.crash (fun errno _ => ?_) ?_)
      · simp only
        split
        · exact (wp_pure _).mpr tended
        · exact (wp_pure _).mpr tended
      · refine wp_bind ((wp_cleanupPins mode _ loading after tended).mono ?_ fun _ held => held)
        exact fun later last held => (wp_pure _).mpr held
    refine wp_bind (cleans.mono ?_ fun _ held => held)
    rintro ⟨cleaned, later⟩ last tended
    cases cleaned with
    | error errno =>
      exact wp_bind ((frees later.set last tended).mono (fun _ _ held => (wp_pure _).mpr held)
        fun _ held => held)
    | ok done =>
      exact (wp_pure _).mpr ⟨rfl, fun _ emptied => by simp at emptied, tended⟩

theorem Resting.reboot (resting : Resting upkeep added world) (surviving : Surviving) :
    Resting upkeep added (world.reboot surviving) :=
  fun name valid => upkeep.rebooted surviving valid (resting name valid)

theorem Resting.startsAs (resting : Resting upkeep added world) (pid : Nat) :
    Resting upkeep added { world with pid } :=
  fun name valid => upkeep.started pid (resting name valid)

theorem Tidy.resting (tidy : Tidy upkeep state) : Resting upkeep state.added state.world := by
  unfold Tidy at tidy
  split at tidy
  · exact tidy
  · exact tidy.tended.crash

/-- The invariant holds before anything was stored. -/
theorem tidy_initial (upkeep : Upkeep roots) : Tidy upkeep State.initial :=
  fun _ valid => upkeep.absent valid (AList.lookup_empty _)

/-- Every step keeps the invariant, also one that ends in a crash. -/
theorem Tidy.step [Libm] (tidy : Tidy upkeep state) (allowed : Allowed upkeep state action) :
    Tidy upkeep (state.step action) := by
  obtain ⟨world, running, added⟩ := state
  have resting : Resting upkeep added world := tidy.resting
  cases action with
  | request request answers =>
    cases running with
    | none => exact tidy
    | some daemon =>
      have spec := wp_handle tidy allowed
      cases run : handle daemon request world answers with
      | returned value after rest =>
        simp only [State.step, run]
        exact spec.returned run
      | crashed after =>
        simp only [State.step, run]
        exact spec.crashed run
  | sync now force answers =>
    cases running with
    | none => exact tidy
    | some daemon =>
      have spec := wp_syncDirtyLogs tidy (allowed daemon rfl) now force
      cases run : syncDirtyLogs daemon.set now force world answers with
      | returned value after rest =>
        simp only [State.step, run]
        exact spec.returned run
      | crashed after =>
        simp only [State.step, run]
        exact spec.crashed run
  | shutdown now answers =>
    cases running with
    | none => exact tidy
    | some daemon => exact (wp_shutdown tidy (allowed daemon rfl) now).stops answers
  | restart env config pid answers =>
    cases running with
    | some daemon => exact tidy
    | none =>
      have spec := wp_startup env config.logSyncMode (resting.startsAs pid)
      rw [show roots.withMode config.logSyncMode = config from allowed.symm] at spec
      cases run : startup env config { world with pid } answers with
      | crashed after =>
        simp only [State.step, run]
        exact spec.crashed run
      | returned value after rest =>
        have held := spec.returned run
        simp only [State.step, run]
        cases value with
        | ok daemon => exact held
        | error failure => exact held
  | kill => exact resting
  | reboot surviving => exact resting.reboot surviving

theorem Tidy.run [Libm] (tidy : Tidy upkeep state) (permitted : Permitted upkeep state actions) :
    Tidy upkeep (state.run actions) := by
  induction actions generalizing state with
  | nil => exact tidy
  | cons action rest ih => exact ih (tidy.step permitted.1) permitted.2

end

end Bloomd
