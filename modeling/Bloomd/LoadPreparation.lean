import Bloomd.LoadSteps
import Bloomd.CrashLogic.Simulation
import Bloomd.CrashLogic.Independence

/-! A turn of the load loop up to the filter that is ready for the set. All calls on
files, logs, pins and maps fall into this part; what is left is the set and its memory. -/

namespace Bloomd

open CrashLogic Prog

/-- What a turn has ready: nothing to do, metadata that were set aside, a failure, or a
filter with the record it was loaded from -/
inductive Ready where
  | nothing
  | aside
  | failed (failure : Failure)
  | filter (record : FilterMeta) (filter : Filter) (unpinOnError : Bool)

/-- From the map in hand to the filter with its log open -/
def prepareFilter (record : FilterMeta) (map : Nat) (unpinOnError : Bool) : Sys Ready := do
  match ← validateOpenPinnedMap record map with
  | .error failure => do
    cleanupEntry record unpinOnError
    pure (.failed failure)
  | .ok () => do
    let (opened, filter) ← openLoadedLog (loadedFilter record map)
    match opened with
    | .error failure => do
      cleanupEntry record unpinOnError
      pure (.failed failure)
    | .ok () => pure (.filter record filter unpinOnError)

def prepareSeen (path : Bytes) : Seen → Sys Ready
  | .ignored => pure .nothing
  | .unusable => do
    let _ ← metaRecoverStale path
    pure .aside
  | .unplaced failure => pure (.failed failure)
  | .opened (.failed failure) => pure (.failed failure)
  | .opened .stale => do
    let _ ← metaRecoverStale path
    pure .aside
  | .opened (.map record map unpinOnError) => prepareFilter record map unpinOnError

def prepareEntry (env : Env) (config : Config) (entry : Bytes) : Sys Ready :=
  lookEntry env config entry >>= prepareSeen (joined config.metaRoot entry [])

/-- The set and the counters after a turn -/
def finishEntry (loading : Loading) : Ready → Sys (Except Failure Unit × Loading)
  | .nothing => pure (.ok (), loading)
  | .aside => pure (.ok (), { loading with
      stats := { loading.stats with orphanMeta := loading.stats.orphanMeta + 1 } })
  | .failed failure => pure (.error failure, loading)
  | .filter record filter unpinOnError => do
    match ← filterSetAdd loading.set filter with
    | .error errno => do
      cleanupEntry record unpinOnError
      pure (.error ⟨errno, "too many filters loaded"⟩, loading)
    | .ok set => pure (.ok (), ⟨set,
        { loading.stats with filtersLoaded := loading.stats.filtersLoaded + 1 }⟩)

section

variable {env : Env} {roots : Config} {mode : LogSyncMode} {name : Bytes} {world : World} {loading : Loading}

theorem FilterSet.findN_none_set {set : FilterSet} (missing : (set.findN name).1 = none) :
    (set.findN name).2 = set := by
  have scans : (FilterSet.findN.scan set name).1 = none → (FilterSet.findN.scan set name).2 = set := by
    unfold FilterSet.findN.scan
    split
    · nofun
    · exact fun _ => rfl
  unfold FilterSet.findN at missing ⊢
  split at missing
  · split at missing
    · cases missing
    · rename_i unmatched
      simp only [unmatched, Bool.false_eq_true, ↓reduceIte]
      exact scans missing
  · exact scans missing

theorem admitLoaded_eq (path : Bytes) (record : FilterMeta) (map : Nat) (unpinOnError : Bool)
    (missing : (loading.set.findN record.name).1 = none) :
    admitLoaded loading path record map unpinOnError =
      prepareFilter record map unpinOnError >>= finishEntry loading := by
  have same : ({ loading with set := (loading.set.findN record.name).2 } : Loading) = loading := by
    rw [FilterSet.findN_none_set missing]
  unfold admitLoaded prepareFilter
  rw [bind_assoc]
  congr 1
  funext checked
  cases checked with
  | error failure =>
    simp only [bind_assoc, pure_bind]
    rfl
  | ok done =>
    simp only [missing, Option.isSome_none, Bool.false_eq_true, ↓reduceIte, same]
    unfold addLoaded
    rw [bind_assoc]
    congr 1
    funext opened
    obtain ⟨opened, filter⟩ := opened
    cases opened with
    | error failure =>
      simp only [bind_assoc, pure_bind]
      rfl
    | ok done => rfl

theorem actOn_eq (path : Bytes) (seen : Seen)
    (missing : ∀ record map unpin, seen = .opened (.map record map unpin) → (loading.set.findN record.name).1 = none) :
    actOn path loading seen = prepareSeen path seen >>= finishEntry loading := by
  cases seen with
  | ignored => rfl
  | unusable =>
    simp only [actOn, prepareSeen, quarantine, bind_assoc, pure_bind]
    rfl
  | unplaced failure => rfl
  | opened opened =>
    cases opened with
    | stale =>
      simp only [actOn, prepareSeen, quarantine, bind_assoc, pure_bind]
      rfl
    | failed failure => rfl
    | map record map unpin => exact admitLoaded_eq path record map unpin (missing record map unpin rfl)

theorem staysWithin_prepareFilter {config : Config} {record : FilterMeta} (placed : Placed config record) (map : Nat)
    (unpinOnError : Bool) : StaysWithin record.name (prepareFilter record map unpinOnError) fun _ => True := by
  have cleans : StaysWithin record.name (cleanupEntry record unpinOnError) fun _ => True :=
    keeps_cleanupEntry placed unpinOnError
  have opens : StaysWithin (loadedFilter record map).name (openLoadedLog (loadedFilter record map))
      fun result => Follows config (loadedFilter record map) result.2 :=
    keeps_openLoadedLog (seated_loadedFilter placed map)
  refine .bind (staysWithin_validate _ _) fun checked _ => ?_
  cases checked with
  | error failure => exact .bind cleans fun _ _ => .pure trivial
  | ok done =>
    refine .bind opens fun (opened, filter) _ => ?_
    cases opened with
    | error failure => exact .bind cleans fun _ _ => .pure trivial
    | ok done => exact .pure trivial

/-- A turn up to the ready filter stays with the files of its name. -/
theorem staysWithin_prepareEntry (env : Env) (config : Config) (valid : nameIsValid name = true) :
    StaysWithin name (prepareEntry env config (metaLeaf name)) fun _ => True := by
  have path : joined config.metaRoot (metaLeaf name) [] = config.metaPathOf name := joined_metaLeaf config name
  have asides : StaysWithin name (do let _ ← metaRecoverStale (config.metaPathOf name); pure Ready.aside)
      fun _ => True := by
    refine .bind (keeps_metaRecoverStale (leaf_metaPathOf config valid) fun now => ?_) fun _ _ => .pure trivial
    rw [leaf_copy config valid _ (by decide)]
    exact ⟨_, _, rfl⟩
  have reads : StaysWithin name (metaReadFile env (config.metaPathOf name)) fun result =>
      ∀ metadata, result = .ok metadata → metadata.metaPath = config.metaPathOf name := by
    intro world
    refine (wp_metaReadFile env _ world).mono ?_ ?_
    · rintro result after ⟨rfl, read⟩
      refine ⟨fun metadata same => ?_, refl after⟩
      obtain ⟨_, record, _, _, rfl⟩ := read metadata same
      rfl
    · rintro after rfl
      exact refl after
  unfold prepareEntry lookEntry
  simp only [path, metaEntryName_metaLeaf valid]
  split
  · exact .pure trivial
  · split
    · exact .pure trivial
    · unfold lookRecord
      rw [bind_assoc]
      refine .bind reads fun result own => ?_
      cases result with
      | error errno => exact asides
      | ok metadata =>
        have own := own metadata rfl
        simp only
        split
        · exact asides
        · rename_i accepted
          simp only [not_or, ne_eq, Decidable.not_not, Bool.not_eq_true', Bool.not_eq_false] at accepted
          obtain ⟨named, _, pinned⟩ := accepted
          split
          · exact .pure trivial
          · rename_i logPath built
            obtain rfl : logPath = config.logPathOf name := by
              rw [(joinPath_ok built).2, named]
              rfl
            have placed : Placed config { metadata with logPath := config.logPathOf name } := by
              have fits : Placed config { metadata with
                  metaPath := config.metaPathOf name, logPath := config.logPathOf name } :=
                placed_of_read valid named pinned
              exact ⟨fits.valid, own.trans fits.file, fits.log, fits.pin⟩
            have opens := staysWithin_openOrRebuild placed
            rw [show ({ metadata with logPath := config.logPathOf name } : FilterMeta).name = name from named] at opens
            simp only [bind_assoc, pure_bind]
            refine .bind opens fun opened fits => ?_
            cases opened with
            | failed failure => exact .pure trivial
            | stale => exact asides
            | map loaded map unpinOnError =>
              obtain ⟨fitting, same⟩ := fits
              rw [← same]
              exact staysWithin_prepareFilter fitting map unpinOnError

theorem wp_openOrRebuild_named (config : Config) (record : FilterMeta) :
    wp (openOrRebuild config record) (fun opened _ => ∀ loaded map unpin, opened = .map loaded map unpin →
      loaded.name = record.name) (fun _ => True) world := by
  have taken : ∀ {loaded : FilterMeta} {map : Nat} {unpin : Bool}, loaded.name = record.name →
      ∀ other number flag, Opened.map loaded map unpin = .map other number flag → other.name = record.name := by
    intro loaded map unpin named other number flag same
    obtain ⟨rfl, -, -⟩ := Opened.map.inj same
    exact named
  have rebuilds : ∀ world, wp (rebuildFromLog config record)
      (fun rebuilt _ => ∀ loaded map, rebuilt = .ok (loaded, map) → loaded.name = record.name)
        (fun _ => True) world := by
    intro world
    unfold rebuildFromLog
    split
    · exact (wp_pure _).mpr nofun
    · rename_i placed assigned
      obtain ⟨-, -, -, rfl⟩ := assignFilterPaths_ok assigned
      apply wp_bind
      apply (wp_trivial _).mono _ fun _ held => held
      intro created middle _
      cases created with
      | error failure => exact (wp_pure _).mpr nofun
      | ok map =>
        apply wp_bind
        apply (wp_trivial _).mono _ fun _ held => held
        rintro ⟨replayed, context⟩ after _
        cases replayed with
        | error errno => exact (wp_pure _).mpr nofun
        | ok count =>
          apply wp_bind
          apply (wp_trivial _).mono _ fun _ held => held
          intro pinned last _
          cases pinned with
          | error failure => exact (wp_pure _).mpr nofun
          | ok done =>
            apply (wp_pure _).mpr
            intro loaded number same
            obtain ⟨rfl, -⟩ := Prod.mk.inj (Except.ok.inj same)
            rfl
  apply wp_bind
  apply (wp_trivial _).mono _ fun _ held => held
  intro result after _
  cases result with
  | ok map => exact (wp_pure _).mpr (taken rfl)
  | error errno =>
    simp only
    split
    · split
      · apply wp_bind
        apply (wp_trivial _).mono _ fun _ held => held
        intro created last _
        cases created with
        | ok map => exact (wp_pure _).mpr (taken rfl)
        | error failure => exact (wp_pure _).mpr nofun
      · split
        · exact (wp_pure _).mpr nofun
        · apply wp_bind
          apply (rebuilds after).mono _ fun _ held => held
          intro rebuilt last named
          cases rebuilt with
          | ok pair => exact (wp_pure _).mpr (taken (named pair.1 pair.2 rfl))
          | error failure =>
            simp only
            split
            · exact (wp_pure _).mpr nofun
            · exact (wp_pure _).mpr nofun
    · exact (wp_pure _).mpr nofun

theorem wp_lookEntry_named (env : Env) (config : Config) (entry : Bytes) :
    wp (lookEntry env config entry) (fun seen _ => ∀ record map unpin, seen = .opened (.map record map unpin) →
      metaEntryName entry = .ok record.name) (fun _ => True) world := by
  unfold lookEntry
  split
  · exact (wp_pure _).mpr nofun
  · simp only
    split
    · exact (wp_pure _).mpr nofun
    · cases metaEntryName entry with
      | error errno => exact (wp_pure _).mpr nofun
      | ok name =>
        apply wp_bind
        apply (wp_trivial _).mono _ fun _ held => held
        intro read middle _
        cases read with
        | error errno => exact (wp_pure _).mpr nofun
        | ok metadata =>
          simp only
          split
          · exact (wp_pure _).mpr nofun
          · rename_i accepted
            have named : metadata.name = name := by
              by_contra different
              exact accepted (Or.inl different)
            split
            · exact (wp_pure _).mpr nofun
            · rename_i logPath _
              apply wp_bind
              apply (wp_openOrRebuild_named config { metadata with logPath }).mono _ fun _ held => held
              intro opened after same
              apply (wp_pure _).mpr
              intro record map unpin seen
              rw [same record map unpin (Seen.opened.inj seen), ← named]

/-- A turn for a name that is not in the set -/
theorem loadEntry_prepared (env : Env) (config : Config) {entry : Bytes}
    (missing : ∀ name, metaEntryName entry = .ok name → (loading.set.findN name).1 = none) :
    loadEntry env config entry loading = prepareEntry env config entry >>= finishEntry loading := by
  rw [loadEntry_eq, prepareEntry, bind_assoc]
  apply bind_eq_of_yields fun run => (wp_lookEntry_named env config entry).returned run
  intro seen named
  exact actOn_eq _ seen fun record map unpin same => missing _ (named record map unpin same)

end

end Bloomd
