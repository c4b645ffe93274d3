import Bloomd.Requests

/-! Startup: `bloomd_load_metadata_dir`, the rebuild of a map from its log, and
`bloomd_cleanup_orphan_pins`. -/

namespace Bloomd

open CrashLogic

/-- `bloomd_replay_digest_cb`; the context is the result of the last update. -/
def replayDigest (map : Nat) (digest : Digest) (_ : Except Failure Unit) :
    Sys (Bool × Except Failure Unit) := do
  match ← bpfAddDigest map digest with
  | .ok () => pure (true, .ok ())
  | .error failure => pure (false, .error failure)

/-- The error of `bloomd_rebuild_from_log` after a failed replay -/
def replayFailure (name : Bytes) (errno : Errno) : Except Failure Unit → Failure
  | .error failure => failure
  | .ok () =>
    if errno = .enoent then ⟨errno, "digest log missing for " ++ text name⟩
    else if errno = .einval then ⟨errno, "digest log is malformed for " ++ text name⟩
    else ⟨errno, "failed to replay digest log for " ++ text name ++ ": " ++ errno.strerror⟩

/-- `bloomd_rebuild_from_log`: the record with its paths reassigned, and the map -/
def rebuildFromLog (config : Config) (record : FilterMeta) :
    Sys (Except Failure (FilterMeta × Nat)) :=
  match assignFilterPaths config record with
  | .error errno => pure (.error ⟨errno, "failed to build filter paths for " ++ text record.name⟩)
  | .ok record => do
    match ← bpfCreateMap record.capacity record.hashes with
    | .error failure => pure (.error failure)
    | .ok map => do
      let (replayed, context) ← logReplay record.logPath (replayDigest map) (.ok ())
      match replayed with
      | .error errno => pure (.error (replayFailure record.name errno context))
      | .ok _ =>
        match ← bpfPinMap map record.pinPath with
        | .error failure => pure (.error failure)
        | .ok () => pure (.ok (record, map))

/-- `bloomd_validate_open_pinned_map` -/
def validateOpenPinnedMap (record : FilterMeta) (map : Nat) : Sys (Except Failure Unit) := do
  match ← bpfGetMapInfo map with
  | .error failure => pure (.error failure)
  | .ok info =>
    if info.type ≠ bloomFilterMapType ∨ info.keySize ≠ 0 ∨ info.valueSize ≠ record.valueSize ∨
        info.maxEntries ≠ record.capacity ∨ info.mapExtra &&& 0x0f ≠ record.hashes then
      pure (.error ⟨.einval, "pinned map parameters do not match metadata for " ++ text record.name⟩)
    else pure (.ok ())

/-- What the loader has in hand after it looked for the pin: a map, with the
record and whether the map was rebuilt and pinned here; stale metadata; or an
error that ends the load. -/
inductive Opened where
  | map (record : FilterMeta) (map : Nat) (unpinOnError : Bool)
  | stale
  | failed (failure : Failure)

/-- The part of the load loop from `bloomd_bpf_open_pinned` to the map in hand -/
def openOrRebuild (config : Config) (record : FilterMeta) : Sys Opened := do
  match ← bpfOpenPinned record.pinPath with
  | .ok map => pure (.map record map false)
  | .error errno =>
    if errno = .enoent then
      if !record.hasData then do
        match ← bpfCreateMap record.capacity record.hashes with
        | .ok map => pure (.map record map false)
        | .error failure => pure (.failed failure)
      else if !record.logClean then
        pure (.failed ⟨.euclean, "refusing rebuild for " ++ text record.name ++
          ": replay log may be missing unsynced tail"⟩)
      else do
        match ← rebuildFromLog config record with
        | .ok (record, map) => pure (.map record map true)
        | .error failure =>
          if failure.errno = .enoent then pure .stale else pure (.failed failure)
    else pure (.failed ⟨errno, "failed to open pinned map for " ++ text record.name ++ ": " ++
      errno.strerror⟩)

/-- The filters and counters a load has gathered so far -/
structure Loading where
  set : FilterSet
  stats : Stats
  deriving DecidableEq, Repr

/-- `bloomd_meta_recover_stale` and the counter, after a warning -/
def quarantine (path : Bytes) (loading : Loading) : Sys Loading := do
  let _ ← metaRecoverStale path
  pure { loading with
    stats := { loading.stats with orphanMeta := loading.stats.orphanMeta + 1 } }

/-- The label `cleanup_entry` -/
def cleanupEntry (record : FilterMeta) (unpinOnError : Bool) : Sys Unit := do
  if unpinOnError then
    let _ ← bpfUnpin record.pinPath
    pure ()
  else pure ()

/-- The filter that the loader makes of a record. A clean flag of 0 inherited
from disk means that the map holds digests the log never recorded. -/
def loadedFilter (record : FilterMeta) (map : Nat) : Filter :=
  { Filter.fresh record map with logHistoryIncomplete := record.hasData && !record.logClean }

/-- Only a filter with data has a log to open. -/
def openLoadedLog (filter : Filter) : Sys (Except Failure Unit × Filter) :=
  if filter.metadata.hasData then openFilterLog filter false else pure (.ok (), filter)

/-- The end of one turn of the load loop: open the log and add the filter. -/
def addLoaded (loading : Loading) (record : FilterMeta) (map : Nat) (unpinOnError : Bool) :
    Sys (Except Failure Unit × Loading) := do
  let (opened, filter) ← openLoadedLog (loadedFilter record map)
  match opened with
  | .error failure => do
    cleanupEntry record unpinOnError
    pure (.error failure, loading)
  | .ok () =>
    match ← filterSetAdd loading.set filter with
    | .error errno => do
      cleanupEntry record unpinOnError
      pure (.error ⟨errno, "too many filters loaded"⟩, loading)
    | .ok set => pure (.ok (), ⟨set,
        { loading.stats with filtersLoaded := loading.stats.filtersLoaded + 1 }⟩)

/-- The middle of one turn: check the map against the record and look for a
filter of the same name. -/
def admitLoaded (loading : Loading) (path : Bytes) (record : FilterMeta) (map : Nat)
    (unpinOnError : Bool) : Sys (Except Failure Unit × Loading) := do
  match ← validateOpenPinnedMap record map with
  | .error failure => do
    cleanupEntry record unpinOnError
    pure (.error failure, loading)
  | .ok () =>
    let (found, set) := loading.set.findN record.name
    let loading := { loading with set }
    if found.isSome then do
      let loading ← quarantine path loading
      cleanupEntry record unpinOnError
      pure (.ok (), loading)
    else addLoaded loading record map unpinOnError

/-- One turn of the load loop for an entry with a valid name -/
def loadRecord (env : Env) (config : Config) (path entryName : Bytes) (loading : Loading) :
    Sys (Except Failure Unit × Loading) := do
  match ← metaReadFile env path with
  | .error _ => do
    let loading ← quarantine path loading
    pure (.ok (), loading)
  | .ok record =>
    if record.name ≠ entryName ∨ !pathUnderRoot record.pinPath config.pinRoot ∨
        !pathHasName record.pinPath record.name then do
      let loading ← quarantine path loading
      pure (.ok (), loading)
    else
      match buildLogPath config.metaRoot record.name with
      | .error errno =>
        pure (.error ⟨errno, "failed to derive digest log path for " ++ text record.name⟩, loading)
      | .ok logPath => do
        match ← openOrRebuild config { record with logPath } with
        | .failed failure => pure (.error failure, loading)
        | .stale => do
          let loading ← quarantine path loading
          pure (.ok (), loading)
        | .map record map unpinOnError => admitLoaded loading path record map unpinOnError

/-- One turn of the loop of `bloomd_load_metadata_dir` -/
def loadEntry (env : Env) (config : Config) (entry : Bytes) (loading : Loading) :
    Sys (Except Failure Unit × Loading) :=
  if !hasSuffix entry (bytes ".meta") then pure (.ok (), loading)
  else
    let path := joined config.metaRoot entry []
    if pathMax ≤ path.length then pure (.ok (), loading)
    else
      match metaEntryName entry with
      | .error _ => pure (.ok (), loading)
      | .ok entryName => loadRecord env config path entryName loading

def loadEntries (env : Env) (config : Config) :
    List Bytes → Loading → Sys (Except Failure Unit × Loading)
  | [], loading => pure (.ok (), loading)
  | entry :: rest, loading => do
    let (loaded, loading) ← loadEntry env config entry loading
    match loaded with
    | .error failure => pure (.error failure, loading)
    | .ok () => loadEntries env config rest loading

/-- `bloomd_load_metadata_dir` -/
def loadMetadataDir (env : Env) (config : Config) (loading : Loading) :
    Sys (Except Failure Unit × Loading) := do
  match ← sysListFiles env config.metaRoot with
  | .error errno =>
    if errno = .enoent then pure (.ok (), loading)
    else pure (.error ⟨errno, "failed to list metadata directory"⟩, loading)
  | .ok entries => loadEntries env config entries loading

/-- The loop of `bloomd_cleanup_orphan_pins` -/
def cleanupPins (config : Config) : List Bytes → Loading → Sys Loading
  | [], loading => pure loading
  | entry :: rest, loading => do
    if !nameIsValid entry then cleanupPins config rest loading
    else
      let (found, set) := loading.set.findN entry
      let loading := { loading with set }
      let path := joined config.pinRoot entry []
      if found.isSome then cleanupPins config rest loading
      else if pathMax ≤ path.length then cleanupPins config rest loading
      else
        match ← sysUnlinkPin path with
        | .error _ => cleanupPins config rest loading
        | .ok () => cleanupPins config rest { loading with
            stats := { loading.stats with orphanPin := loading.stats.orphanPin + 1 } }

/-- `bloomd_cleanup_orphan_pins` -/
def cleanupOrphanPins (env : Env) (config : Config) (loading : Loading) :
    Sys (Except Errno Unit × Loading) := do
  match ← sysListPins env config.pinRoot with
  | .error errno => if errno = .enoent then pure (.ok (), loading) else pure (.error errno, loading)
  | .ok entries => do
    let loading ← cleanupPins config entries loading
    pure (.ok (), loading)

/-- The part of `main` from the load to the listening daemon -/
def startup (env : Env) (config : Config) : Sys (Except Failure Daemon) := do
  let (loaded, loading) ← loadMetadataDir env config ⟨.init, .zero⟩
  match loaded with
  | .error failure => do
    filterSetFree loading.set
    pure (.error failure)
  | .ok () => do
    let (cleaned, loading) ← cleanupOrphanPins env config loading
    match cleaned with
    | .error errno => do
      filterSetFree loading.set
      pure (.error ⟨errno, "failed to reconcile pinned maps"⟩)
    | .ok () => pure (.ok ⟨config, loading.set, none, loading.stats⟩)

/-- The end of `main` after a signal: a forced sync, then the set is freed. -/
def shutdown (daemon : Daemon) (now : Nat) : Sys Unit := do
  let set ← syncDirtyLogs daemon.set now true
  filterSetFree set

end Bloomd
