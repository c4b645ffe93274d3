import Bloomd.Durability
import Bloomd.Hash

/-! The request handlers of `daemon.c` that touch filters, from the point where
the body has been parsed. -/

namespace Bloomd

open CrashLogic

/-- The value of `ceil(log2(1.0 / rate))` as the C library computes it -/
class Libm where
  ceilLog2Recip : UInt64 → Int

/-- A C library without rounding errors: the least `k` with `1 / rate ≤ 2 ^ k` -/
@[reducible] def exactLibm : Libm where
  ceilLog2Recip rate :=
    let value := doubleFraction rate
    ((List.range 1100).find? fun k => value.2 ≤ value.1 * 2 ^ k).getD 0

/-- `bloomd_hashes_for_error_rate` -/
def hashesForErrorRate [Libm] (rate : UInt64) : Nat :=
  if !rateInRange rate then 0
  else if Libm.ceilLog2Recip rate < 1 then 1
  else if 15 < Libm.ceilLog2Recip rate then 15
  else (Libm.ceilLog2Recip rate).toNat

/-- `struct bloomd_empty_map_pool` while it holds a map -/
structure PooledMap where
  mapFd : Nat
  capacity : Nat
  hashes : Nat
  valueSize : Nat
  deriving DecidableEq, Repr

/-- A running daemon's memory -/
structure Daemon where
  config : Config
  set : FilterSet
  pool : Option PooledMap
  stats : Stats
  deriving DecidableEq, Repr

/-- `bloomd_take_empty_map` -/
def takeEmptyMap (daemon : Daemon) (capacity hashes valueSize : Nat) : Option Nat × Daemon :=
  match daemon.pool with
  | some pooled =>
    if pooled.capacity = capacity ∧ pooled.hashes = hashes ∧ pooled.valueSize = valueSize then
      (some pooled.mapFd, { daemon with
        pool := none
        stats := { daemon.stats with emptyPoolHits := daemon.stats.emptyPoolHits + 1 } })
    else (none, { daemon with
        stats := { daemon.stats with emptyPoolMisses := daemon.stats.emptyPoolMisses + 1 } })
  | none => (none, { daemon with
      stats := { daemon.stats with emptyPoolMisses := daemon.stats.emptyPoolMisses + 1 } })

/-- The fields of a parsed CREATE body -/
structure CreateRequest where
  name : Bytes
  capacity : Nat
  errorRate : UInt64
  hashes : Nat
  deriving DecidableEq, Repr

/-- The metadata that `bloomd_handle_create` fills in, before the paths -/
def newFilterMeta [Libm] (request : CreateRequest) : FilterMeta where
  name := request.name
  backend := backendName
  digest := digestName
  pinPath := []
  capacity := request.capacity
  errorRate := request.errorRate
  hashes := if request.hashes = 0 then hashesForErrorRate request.errorRate else request.hashes
  valueSize := digestSize
  version := metadataVersion
  hasData := false
  logClean := true
  metaPath := []
  logPath := []

/-- The clean-up of `bloomd_handle_create` when the set has no room -/
def uninstall (metadata : FilterMeta) (reply : Reply) (daemon : Daemon) : Sys (Reply × Daemon) := do
  let _ ← metaDelete metadata.metaPath
  let _ ← logDelete metadata.logPath
  let _ ← bpfUnpin metadata.pinPath
  pure (reply, daemon)

/-- The end of `bloomd_handle_create`: store the metadata and add the filter,
or take back what was done. -/
def installFilter (daemon : Daemon) (filter : Filter) : Sys (Reply × Daemon) := do
  match ← metaWriteAtomic filter.metadata with
  | .error _ => pure (.error .io .metadata "failed to write metadata", daemon)
  | .ok () =>
    match ← filterSetAdd daemon.set filter with
    | .error _ => uninstall filter.metadata (.error .internal .none "too many filters") daemon
    | .ok set => pure (.ok [], { daemon with
        set
        stats := { daemon.stats with filtersCreated := daemon.stats.filtersCreated + 1 } })

/-- `bloomd_handle_create`, after the body was parsed -/
def handleCreate [Libm] (daemon : Daemon) (request : CreateRequest) : Sys (Reply × Daemon) :=
  if !nameIsValid request.name then pure (.error .name .parse "invalid name", daemon)
  else if request.capacity = 0 ∨ 2 ^ 32 ≤ request.capacity ∨ 15 < request.hashes ∨
      !rateInRange request.errorRate then
    pure (.error .badRequest .range "invalid capacity, error_rate, or hashes", daemon)
  else
    let (found, set) := daemon.set.findN request.name
    let daemon := { daemon with set }
    if found.isSome then pure (.error .exists .none "filter already exists", daemon)
    else
      match assignFilterPaths daemon.config (newFilterMeta request) with
      | .error _ => pure (.error .internal .none "failed to build filter paths", daemon)
      | .ok metadata => do
        let (taken, daemon) := takeEmptyMap daemon metadata.capacity metadata.hashes metadata.valueSize
        match taken with
        | some map => installFilter daemon (Filter.fresh metadata map)
        | none =>
          match ← bpfCreateMap metadata.capacity metadata.hashes with
          | .error failure =>
            if failure.errno = .eperm then
              pure (.error .perm .bpfPrivs failure.message, daemon)
            else pure (.error .bpf .unsupportedKernel failure.message, daemon)
          | .ok map => installFilter daemon (Filter.fresh metadata map)

/-- The steps before the first digest of an ADD or MADD: make the filter
durable and, in `periodic` mode, clear the clean flag. The value says whether the
flag was cleared here. -/
def prepareAdd (filter : Filter) (mode : LogSyncMode) : Sys (Except Reply Bool × Filter) := do
  let (durable, filter) ← ensureFilterDurable filter
  match durable with
  | .error failure => pure (.error (.error .io .metadata failure.message), filter)
  | .ok () =>
    match mode with
    | .always => pure (.ok false, filter)
    | .periodic => do
      let (marked, filter) ← markFilterLogDirty filter
      match marked with
      | .error failure => pure (.error (.error .io .metadata failure.message), filter)
      | .ok changed => pure (.ok changed, filter)

/-- Set the clean flag again after a failed add that had cleared it. -/
def undoMark (filter : Filter) (undo : Bool) : Sys Filter := do
  if undo then
    let (_, filter) ← updateFilterMetaState filter true true
    pure filter
  else pure filter

def stageFailureMessage : LogSyncMode → String
  | .always => "failed to sync digest log"
  | .periodic => "failed to append digest log"

/-- Stage one digest, update the map, and commit or roll back. ADD and MADD
differ in when they undo the cleared flag. -/
def addStaged (filter : Filter) (digest : Digest) (mode : LogSyncMode) (undo : Bool) :
    Sys (Except Reply Unit × Filter) := do
  let (staged, filter) ← stageDigestForAdd filter digest mode
  match staged with
  | .error _ => do
    let filter ← undoMark filter undo
    pure (.error (.error .io .metadata (stageFailureMessage mode)), filter)
  | .ok stage =>
    match ← bpfAddDigest filter.mapFd digest with
    | .error failure => do
      let filter ← rollbackStagedDigest filter stage mode
      let filter ← undoMark filter undo
      pure (.error (.error .bpf .none failure.message), filter)
    | .ok () => do
      let filter ← commitStagedDigest filter mode
      pure (.ok (), filter)

/-- The `is_add` branch of `bloomd_handle_add_check` -/
def addDigest (filter : Filter) (digest : Digest) (mode : LogSyncMode) : Sys (Reply × Filter) := do
  let (prepared, filter) ← prepareAdd filter mode
  match prepared with
  | .error reply => pure (reply, filter)
  | .ok marked => do
    let (added, filter) ← addStaged filter digest mode marked
    match added with
    | .error reply => pure (reply, filter)
    | .ok () => pure (.ok [1], { filter with addCalls := filter.addCalls + 1 })

/-- The other branch of `bloomd_handle_add_check` -/
def checkDigest (filter : Filter) (digest : Digest) : Sys (Reply × Filter) := do
  match ← bpfCheckDigest filter.mapFd digest with
  | .error failure => pure (.error .bpf .none failure.message, filter)
  | .ok present =>
    pure (.ok [if present then 1 else 0], { filter with checkCalls := filter.checkCalls + 1 })

/-- The item loop of `bloomd_handle_batch` for MADD. The flag is
`any_added_success`. -/
def addItems (mode : LogSyncMode) (marked : Bool) :
    List Digest → Bool → Filter → Sys (Except Reply Unit × Filter)
  | [], _, filter => pure (.ok (), filter)
  | digest :: rest, anyAdded, filter => do
    let (added, filter) ← addStaged filter digest mode (marked && !anyAdded)
    match added with
    | .error reply => pure (.error reply, filter)
    | .ok () => addItems mode marked rest true filter

/-- `bloomd_send_u32_count_bytes`: a 16-bit count and one byte for each item -/
def countBytes (values : Bytes) : Bytes :=
  [values.length.toUInt8, (values.length / 256).toUInt8] ++ values

/-- `bloomd_handle_batch` for MADD, after the items were parsed -/
def addBatch (filter : Filter) (digests : List Digest) (mode : LogSyncMode) : Sys (Reply × Filter) := do
  let (prepared, filter) ← prepareAdd filter mode
  match prepared with
  | .error reply => pure (reply, filter)
  | .ok marked => do
    let (added, filter) ← addItems mode marked digests false filter
    match added with
    | .error reply => pure (reply, filter)
    | .ok () =>
      pure (.ok (countBytes (digests.map fun _ => 1)),
        { filter with batchAddCalls := filter.batchAddCalls + 1 })

/-- The item loop of `bloomd_handle_batch` for MCHECK -/
def checkItems (filter : Filter) : List Digest → Sys (Except Reply Bytes)
  | [] => pure (.ok [])
  | digest :: rest => do
    match ← bpfCheckDigest filter.mapFd digest with
    | .error failure => pure (.error (.error .bpf .none failure.message))
    | .ok present =>
      match ← checkItems filter rest with
      | .error reply => pure (.error reply)
      | .ok results => pure (.ok ((if present then 1 else 0) :: results))

/-- `bloomd_handle_batch` for MCHECK, after the items were parsed -/
def checkBatch (filter : Filter) (digests : List Digest) : Sys (Reply × Filter) := do
  match ← checkItems filter digests with
  | .error reply => pure (reply, filter)
  | .ok results =>
    pure (.ok (countBytes results), { filter with batchCheckCalls := filter.batchCheckCalls + 1 })

/-- Look a filter up and work on it in place. -/
def withFilter (daemon : Daemon) (name : Bytes) (work : Filter → Sys (Reply × Filter)) :
    Sys (Reply × Daemon) :=
  let (found, set) := daemon.set.findN name
  let daemon := { daemon with set }
  match found with
  | none => pure (.error .notFound .none "filter not found", daemon)
  | some index =>
    match set.items[index]? with
    | none => pure (.error .notFound .none "filter not found", daemon)
    | some filter => do
      let (reply, filter) ← work filter
      pure (reply, { daemon with set := { set with items := set.items.set index filter } })

/-- `bloomd_handle_add_check`. The name is checked by `bloomd_parse_name_payload`. -/
def handleAddCheck (daemon : Daemon) (name payload : Bytes) (isAdd : Bool) : Sys (Reply × Daemon) :=
  if !nameIsValid name then pure (.error .badRequest .parse "malformed body", daemon)
  else withFilter daemon name fun filter =>
    if isAdd then addDigest filter (digestPayload payload) daemon.config.logSyncMode
    else checkDigest filter (digestPayload payload)

/-- `bloomd_handle_batch`. The name is checked by `bloomd_parse_batch`. -/
def handleBatch (daemon : Daemon) (name : Bytes) (payloads : List Bytes) (isAdd : Bool) :
    Sys (Reply × Daemon) :=
  if !nameIsValid name then pure (.error .badRequest .parse "malformed batch body", daemon)
  else withFilter daemon name fun filter =>
    if isAdd then addBatch filter (payloads.map digestPayload) daemon.config.logSyncMode
    else checkBatch filter (payloads.map digestPayload)

/-- The middle of `bloomd_handle_drop`: remove the metadata file and then the
log, or pin the map again when the file cannot be removed. -/
def dropMetadata (filter : Filter) : Sys (Except Reply Unit) := do
  match ← metaDelete filter.metadata.metaPath with
  | .error _ => do
    if filter.metadata.hasData then
      let _ ← bpfPinMap filter.mapFd filter.metadata.pinPath
      pure (.error (.error .io .metadata "failed to remove metadata"))
    else pure (.error (.error .io .metadata "failed to remove metadata"))
  | .ok () => do
    if filter.metadata.hasData then
      let _ ← logDelete filter.metadata.logPath
      pure (.ok ())
    else pure (.ok ())

/-- All removals of `bloomd_handle_drop`, the pin first -/
def dropFiles (filter : Filter) : Sys (Except Reply Unit) :=
  if filter.metadata.hasData then do
    match ← bpfUnpin filter.metadata.pinPath with
    | .error failure => pure (.error (.error .bpf .bpffs failure.message))
    | .ok () => dropMetadata filter
  else dropMetadata filter

/-- The end of `bloomd_handle_drop`: the map of a filter without data goes to
the pool. -/
def removeDropped (daemon : Daemon) (name : Bytes) (filter : Filter) : Sys (Reply × Daemon) := do
  let (_, set) ← filterSetRemoveN daemon.set name
  pure (.ok [], { daemon with
    set
    pool := if filter.metadata.hasData then daemon.pool
      else some ⟨filter.mapFd, filter.metadata.capacity, filter.metadata.hashes,
        filter.metadata.valueSize⟩
    stats := { daemon.stats with filtersDropped := daemon.stats.filtersDropped + 1 } })

/-- `bloomd_handle_drop`, after the body was parsed -/
def handleDrop (daemon : Daemon) (name : Bytes) : Sys (Reply × Daemon) :=
  if !nameIsValid name then pure (.error .name .parse "invalid name", daemon)
  else
    let (found, set) := daemon.set.findN name
    let daemon := { daemon with set }
    match found with
    | none => pure (.error .notFound .none "filter not found", daemon)
    | some index =>
      match set.items[index]? with
      | none => pure (.error .notFound .none "filter not found", daemon)
      | some filter => do
        match ← dropFiles filter with
        | .error reply => pure (reply, daemon)
        | .ok () => removeDropped daemon name filter

/-- A request whose body has the right lengths -/
inductive Request where
  | create (request : CreateRequest)
  | add (name payload : Bytes)
  | check (name payload : Bytes)
  | madd (name : Bytes) (payloads : List Bytes)
  | mcheck (name : Bytes) (payloads : List Bytes)
  | drop (name : Bytes)
  deriving DecidableEq, Repr

/-- The filter that a request names -/
def Request.target : Request → Bytes
  | .create request => request.name
  | .add name _ | .check name _ | .madd name _ | .mcheck name _ | .drop name => name

/-- `bloomd_dispatch` over the requests that work on filters -/
def handle [Libm] (daemon : Daemon) : Request → Sys (Reply × Daemon)
  | .create request => handleCreate daemon request
  | .add name payload => handleAddCheck daemon name payload true
  | .check name payload => handleAddCheck daemon name payload false
  | .madd name payloads => handleBatch daemon name payloads true
  | .mcheck name payloads => handleBatch daemon name payloads false
  | .drop name => handleDrop daemon name

end Bloomd
