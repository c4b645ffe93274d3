import Bloomd.Startup

/-! `bloominspect.c`: the offline report on the metadata directory, the logs and the
pins, from the listing of the directories on. -/

namespace Bloomd

open CrashLogic

/-- `inspect_has_suffix` -/
abbrev inspectHasSuffix : Bytes → Bytes → Bool := hasSuffix

/-- `inspect_path_under_root` -/
abbrev inspectPathUnderRoot : Bytes → Bytes → Bool := pathUnderRoot

/-- `inspect_path_has_name` -/
abbrev inspectPathHasName : Bytes → Bytes → Bool := pathHasName

/-- `inspect_entry_name` -/
abbrev inspectEntryName : Bytes → Except Errno Bytes := metaEntryName

/-- `inspect_log_noop`; the value says that the digest was accepted. -/
def inspectLogNoop (_ : Digest) (_ : Unit) : Sys (Bool × Unit) := pure (true, ())

/-- One line of the report on the metadata directory. The record holds the name, the
paths and the clean flag that are printed. -/
inductive Finding where
  | invalidMeta (path : Bytes)
  | ok (record : FilterMeta) (replayCount : Nat)
  | missingLog (record : FilterMeta)
  | badLog (record : FilterMeta) (error : String)
  | rebuildable (record : FilterMeta) (replayCount : Nat)
  | unsafeRebuild (record : FilterMeta) (replayCount : Nat)
  | staleMeta (record : FilterMeta)
  | badPin (record : FilterMeta) (error : String)
  deriving DecidableEq, Repr

/-- `inspect_validate_pin_matches_meta` -/
def inspectValidatePinMatchesMeta (record : FilterMeta) (map : Nat) : Sys Bool := do
  match ← bpfGetMapInfo map with
  | .error _ => pure false
  | .ok info => pure (info.type == bloomFilterMapType && info.keySize == 0 &&
      info.valueSize == record.valueSize && info.maxEntries == record.capacity &&
      info.mapExtra &&& 0x0f == record.hashes)

/-- A log that replays although the pin is missing -/
def foundLog (record : FilterMeta) (replayCount : Nat) : Finding :=
  if record.logClean then .rebuildable record replayCount else .unsafeRebuild record replayCount

/-- A filter without data whose pin did not open -/
def unpinnedEmpty (record : FilterMeta) (pin : Errno) : Except Errno Nat → Finding
  | .ok count => if pin = .enoent then foundLog record count else .badPin record pin.strerror
  | .error log =>
    if pin = .enoent ∧ log = .enoent then .ok record 0
    else if log ≠ .enoent then .badLog record log.strerror
    else .badPin record pin.strerror

/-- A filter with data whose pin did not open -/
def unpinnedDurable (record : FilterMeta) (pin : Errno) (log : Except Errno Nat) : Finding :=
  if pin = .enoent then
    match log with
    | .ok count => foundLog record count
    | .error errno => if errno = .enoent then .staleMeta record else .badLog record errno.strerror
  else .badPin record pin.strerror

/-- A filter with data whose pin opened and matches -/
def pinnedDurable (record : FilterMeta) : Except Errno Nat → Finding
  | .ok count => .ok record count
  | .error errno => if errno = .enoent then .missingLog record else .badLog record errno.strerror

/-- The part of the loop of `main` from the log on: the line that is printed and
the name that joins `loaded_names` -/
def inspectRecord (record : FilterMeta) : Sys (Finding × Option Bytes) := do
  let (log, _) ← logReplayReadonly record.logPath inspectLogNoop ()
  match ← bpfOpenPinned record.pinPath with
  | .ok map => do
    let matched ← inspectValidatePinMatchesMeta record map
    if !record.hasData then
      pure (if matched then .ok record 0 else .badPin record "metadata_mismatch", none)
    else
      pure (if matched then pinnedDurable record log else .badPin record "metadata_mismatch", some record.name)
  | .error errno =>
    if !record.hasData then pure (unpinnedEmpty record errno log, none)
    else pure (unpinnedDurable record errno log, none)

/-- One turn of the metadata loop of `main`; an entry that is no metadata file has no
line. -/
def inspectEntry (env : Env) (config : Config) (entry : Bytes) : Sys (Option Finding × Option Bytes) :=
  if !inspectHasSuffix entry (bytes ".meta") then pure (none, none)
  else
    let path := joined config.metaRoot entry []
    if pathMax ≤ path.length then pure (some (.invalidMeta path), none)
    else
      match inspectEntryName entry with
      | .error _ => pure (some (.invalidMeta path), none)
      | .ok entryName => do
        match ← metaReadFile env path with
        | .error _ => pure (some (.invalidMeta path), none)
        | .ok record =>
          if entryName ≠ record.name ∨ !inspectPathUnderRoot record.pinPath config.pinRoot ∨
              !inspectPathHasName record.pinPath record.name then
            pure (some (.invalidMeta path), none)
          else
            match buildLogPath config.metaRoot record.name with
            | .error _ => pure (some (.invalidMeta path), none)
            | .ok logPath => do
              let (finding, loaded) ← inspectRecord { record with logPath }
              pure (some finding, loaded)

/-- The metadata loop of `main`: the lines and `loaded_names` -/
def inspectEntries (env : Env) (config : Config) : List Bytes → Sys (List Finding × List Bytes)
  | [] => pure ([], [])
  | entry :: rest => do
    let (finding, loaded) ← inspectEntry env config entry
    let (findings, names) ← inspectEntries env config rest
    pure (finding.toList ++ findings, loaded.toList ++ names)

/-- The pin loop of `main`: the names that are reported as `orphan_pin` -/
def orphanPins (loaded entries : List Bytes) : List Bytes :=
  entries.filter fun entry => nameIsValid entry && !loaded.contains entry

/-- All lines of a report -/
structure InspectReport where
  findings : List Finding
  orphans : List Bytes
  deriving DecidableEq, Repr

/-- `main` after the options were parsed -/
def inspect (env : Env) (config : Config) : Sys (Except Errno InspectReport) := do
  match ← sysListFiles env config.metaRoot with
  | .error errno => pure (.error errno)
  | .ok metaEntries =>
    match ← sysListPins env config.pinRoot with
    | .error errno => pure (.error errno)
    | .ok pinEntries => do
      let (findings, loaded) ← inspectEntries env config metaEntries
      pure (.ok ⟨findings, orphanPins loaded pinEntries⟩)

end Bloomd
