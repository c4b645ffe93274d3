import Bloomd.FilterSet

/-! The durable-write path of `daemon.c`: the first durable write, the clean flag,
staging a digest in the log, and the syncs. -/

namespace Bloomd

open CrashLogic

/-- A name as it is printed in a message -/
def text (name : Bytes) : String := String.ofList (name.map fun byte => Char.ofNat byte.toNat)

/-- The choice between the two ways to open a log -/
def logOpen (path : Bytes) (truncate : Bool) : Sys (Except Errno Bytes) :=
  if truncate then logOpenCreate path else logOpenAppend path

/-- `bloomd_open_filter_log` -/
def openFilterLog (filter : Filter) (truncate : Bool) : Sys (Except Failure Unit × Filter) := do
  match ← logOpen filter.metadata.logPath truncate with
  | .error errno =>
    pure (.error ⟨errno, errbuf ("failed to open digest log for " ++ text filter.name ++ ": " ++
      errno.strerror)⟩, { filter with logFd := none })
  | .ok fd => do
    let now ← sysClock
    pure (.ok (),
      { filter with logFd := some fd, logBuf := [], logDirty := false, lastLogSyncMs := now })

def FilterMeta.withState (metadata : FilterMeta) (hasData logClean : Bool) : FilterMeta :=
  { metadata with hasData, logClean }

/-- `bloomd_update_filter_meta_state` -/
def updateFilterMetaState (filter : Filter) (hasData logClean : Bool) :
    Sys (Except Failure Unit × Filter) := do
  let updated := filter.metadata.withState hasData logClean
  match ← metaWriteAtomic updated with
  | .error errno => pure (.error ⟨errno, "failed to write metadata"⟩, filter)
  | .ok () => pure (.ok (), { filter with metadata := updated })

/-- `bloomd_ensure_filter_durable` -/
def ensureFilterDurable (filter : Filter) : Sys (Except Failure Unit × Filter) :=
  if filter.metadata.hasData then
    match filter.logFd with
    | none => openFilterLog filter false
    | some _ => pure (.ok (), filter)
  else do
    match ← bpfPinMap filter.mapFd filter.metadata.pinPath with
    | .error failure => pure (.error failure, filter)
    | .ok () => do
      let (opened, filter) ← openFilterLog filter true
      match opened with
      | .error failure => do
        let _ ← bpfUnpin filter.metadata.pinPath
        pure (.error failure, filter)
      | .ok () => do
        let (updated, filter) ← updateFilterMetaState filter true true
        match updated with
        | .error failure => do
          let _ ← logDelete filter.metadata.logPath
          let _ ← bpfUnpin filter.metadata.pinPath
          pure (.error failure, { filter with logFd := none })
        | .ok () => pure (.ok (), filter)

/-- `bloomd_mark_filter_log_dirty`; the value says whether the flag changed. -/
def markFilterLogDirty (filter : Filter) : Sys (Except Failure Bool × Filter) :=
  if !filter.metadata.hasData || !filter.metadata.logClean then pure (.ok false, filter)
  else do
    let (updated, filter) ← updateFilterMetaState filter true false
    match updated with
    | .error failure => pure (.error failure, filter)
    | .ok () => pure (.ok true, filter)

/-- `struct bloomd_log_stage` -/
structure LogStage where
  prevBufLen : Nat
  prevFileSize : Nat
  prevDirty : Bool
  canTruncate : Bool
  overflowFlush : Bool
  deriving DecidableEq, Repr

/-- The file size that staging records in `always` mode -/
def stageFileSize (filter : Filter) : LogSyncMode → Sys (Except Errno Nat)
  | .periodic => pure (.ok 0)
  | .always =>
    match filter.logFd with
    | none => pure (.error .ebadf)
    | some path => sysLseekEnd path

/-- `bloomd_stage_digest_for_add` -/
def stageDigestForAdd (filter : Filter) (digest : Digest) (mode : LogSyncMode) :
    Sys (Except Errno LogStage × Filter) := do
  match ← stageFileSize filter mode with
  | .error errno => pure (.error errno, filter)
  | .ok prevFileSize => do
    let stage : LogStage :=
      ⟨filter.logBuf.length, prevFileSize, filter.logDirty, mode == .always,
        logBufferCap < filter.logBuf.length + digestSize⟩
    let (appended, buf) ← logBufferAppend filter.logFd filter.logBuf digest
    let filter := { filter with logBuf := buf }
    match appended, mode with
    | .error errno, _ => pure (.error errno, filter)
    | .ok (), .periodic => pure (.ok stage, filter)
    | .ok (), .always => do
      let (flushed, buf) ← logBufferFlush filter.logFd filter.logBuf true
      let filter := { filter with logBuf := buf }
      match flushed with
      | .error errno => pure (.error errno, filter)
      | .ok () => pure (.ok stage, filter)

/-- `bloomd_rollback_staged_digest` -/
def rollbackStagedDigest (filter : Filter) (stage : LogStage) : LogSyncMode → Sys Filter
  | .always => do
    if stage.canTruncate then
      let _ ← logTruncate filter.logFd stage.prevFileSize true
      pure { filter with logBuf := [], logDirty := false }
    else pure { filter with logBuf := [], logDirty := false }
  | .periodic =>
    pure { filter with
      logBuf := if stage.overflowFlush then [] else filter.logBuf.take stage.prevBufLen
      logDirty := stage.prevDirty }

/-- `bloomd_commit_staged_digest` -/
def commitStagedDigest (filter : Filter) : LogSyncMode → Sys Filter
  | .always => do
    let now ← sysClock
    pure { filter with logDirty := false, lastLogSyncMs := now }
  | .periodic => pure { filter with logDirty := true }

/-- One filter's turn in `bloomd_sync_dirty_logs`. The interval is computed in
unsigned 64-bit arithmetic. -/
def syncFilterLog (filter : Filter) (now : Nat) (force : Bool) : Sys Filter :=
  if !filter.logDirty then pure filter
  else if !force && (now + 2 ^ 64 - filter.lastLogSyncMs) % 2 ^ 64 < logSyncIntervalMs then
    pure filter
  else do
    let (flushed, buf) ← logBufferFlush filter.logFd filter.logBuf true
    let filter := { filter with logBuf := buf, lastLogSyncMs := now }
    match flushed with
    | .error _ => pure filter
    | .ok () =>
      let filter := { filter with logDirty := false }
      if filter.metadata.hasData && !filter.metadata.logClean && !filter.logHistoryIncomplete then do
        let (_, filter) ← updateFilterMetaState filter true true
        pure filter
      else pure filter

def syncFilters (now : Nat) (force : Bool) : List Filter → Sys (List Filter)
  | [] => pure []
  | filter :: rest => do
    let filter ← syncFilterLog filter now force
    let rest ← syncFilters now force rest
    pure (filter :: rest)

/-- `bloomd_sync_dirty_logs` -/
def syncDirtyLogs (set : FilterSet) (now : Nat) (force : Bool) : Sys FilterSet := do
  let items ← syncFilters now force set.items
  pure { set with items }

end Bloomd
