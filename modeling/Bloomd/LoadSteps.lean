import Bloomd.FilterLimit

/-! A turn of the load loop in two parts: what the loader finds for an entry, and what
it makes of it. The first part does not depend on the filters loaded before. -/

namespace Bloomd

open CrashLogic Prog

/-- What a turn of the load loop finds for an entry: no name to work with, metadata it
cannot use, a log path that does not fit, or what the search for the map came to -/
inductive Seen where
  | ignored
  | unusable
  | unplaced (failure : Failure)
  | opened (opened : Opened)

/-- The part of `loadRecord` up to the map in hand -/
def lookRecord (env : Env) (config : Config) (path entryName : Bytes) : Sys Seen := do
  match ← metaReadFile env path with
  | .error _ => pure .unusable
  | .ok record =>
    if record.name ≠ entryName ∨ !pathUnderRoot record.pinPath config.pinRoot ∨
        !pathHasName record.pinPath record.name then pure .unusable
    else
      match buildLogPath config.metaRoot record.name with
      | .error errno =>
        pure (.unplaced ⟨errno, "failed to derive digest log path for " ++ text record.name⟩)
      | .ok logPath => do
        let opened ← openOrRebuild config { record with logPath }
        pure (.opened opened)

/-- The part of `loadEntry` up to the map in hand -/
def lookEntry (env : Env) (config : Config) (entry : Bytes) : Sys Seen :=
  if !hasSuffix entry (bytes ".meta") then pure .ignored
  else
    let path := joined config.metaRoot entry []
    if pathMax ≤ path.length then pure .ignored
    else
      match metaEntryName entry with
      | .error _ => pure .ignored
      | .ok entryName => lookRecord env config path entryName

/-- The rest of the turn -/
def actOn (path : Bytes) (loading : Loading) : Seen → Sys (Except Failure Unit × Loading)
  | .ignored => pure (.ok (), loading)
  | .unusable => do
    let loading ← quarantine path loading
    pure (.ok (), loading)
  | .unplaced failure => pure (.error failure, loading)
  | .opened (.failed failure) => pure (.error failure, loading)
  | .opened .stale => do
    let loading ← quarantine path loading
    pure (.ok (), loading)
  | .opened (.map record map unpinOnError) => admitLoaded loading path record map unpinOnError

theorem loadRecord_eq (env : Env) (config : Config) (path entryName : Bytes) (loading : Loading) :
    loadRecord env config path entryName loading =
      lookRecord env config path entryName >>= actOn path loading := by
  unfold loadRecord lookRecord
  rw [bind_assoc]
  congr 1
  funext read
  cases read with
  | error errno => rfl
  | ok record =>
    simp only
    split
    · rfl
    · cases buildLogPath config.metaRoot record.name with
      | error errno => rfl
      | ok logPath =>
        simp only [bind_assoc, pure_bind]
        congr 1
        funext opened
        cases opened <;> rfl

theorem loadEntry_eq (env : Env) (config : Config) (entry : Bytes) (loading : Loading) :
    loadEntry env config entry loading =
      lookEntry env config entry >>= actOn (joined config.metaRoot entry []) loading := by
  unfold loadEntry lookEntry
  split
  · rfl
  · simp only
    split
    · rfl
    · cases metaEntryName entry with
      | error errno => rfl
      | ok entryName => exact loadRecord_eq env config _ entryName loading

end Bloomd
