import Bloomd.Bpf
import Bloomd.Metadata

/-! The filters a daemon holds in memory (`struct bloomd_filter` and the filter
set of `util.c`). -/

namespace Bloomd

open CrashLogic

/-- `struct bloomd_filter`. The log buffer is the first `log_buf_len` bytes of
`log_buf`. -/
structure Filter where
  metadata : FilterMeta
  mapFd : Nat
  logFd : Option Bytes
  logBuf : Bytes
  logDirty : Bool
  logHistoryIncomplete : Bool
  lastLogSyncMs : Nat
  addCalls : Nat
  checkCalls : Nat
  batchAddCalls : Nat
  batchCheckCalls : Nat
  deriving DecidableEq, Repr

/-- `memset` to zero, with the map descriptor filled in and the log closed. -/
def Filter.fresh (metadata : FilterMeta) (mapFd : Nat) : Filter :=
  ⟨metadata, mapFd, none, [], false, false, 0, 0, 0, 0, 0⟩

abbrev Filter.name (filter : Filter) : Bytes := filter.metadata.name

/-- `struct bloomd_filter_set`; `lastIndex` is `none` for `SIZE_MAX`. -/
structure FilterSet where
  items : List Filter
  cap : Nat
  lastIndex : Option Nat
  deriving DecidableEq, Repr

/-- `bloomd_filter_set_init` -/
def FilterSet.init : FilterSet := ⟨[], 0, none⟩

/-- `struct bloomd_stats` -/
structure Stats where
  requests : Nat
  responses : Nat
  errors : Nat
  acceptedConnections : Nat
  filtersLoaded : Nat
  filtersCreated : Nat
  filtersDropped : Nat
  orphanMeta : Nat
  orphanPin : Nat
  emptyPoolHits : Nat
  emptyPoolMisses : Nat
  deriving DecidableEq, Repr

def Stats.zero : Stats := ⟨0, 0, 0, 0, 0, 0, 0, 0, 0, 0, 0⟩

/-- The 64 bytes of `meta.name`: the text and zero bytes after it. -/
def nameBuffer (stored : Bytes) : Bytes :=
  stored ++ List.replicate (maxNameLen + 1 - stored.length) 0

/-- The name test of the lookups: a NUL at `name_len`, then `memcmp`. -/
def nameMatches (stored name : Bytes) : Bool :=
  (nameBuffer stored)[name.length]? == some 0 && (nameBuffer stored).take name.length == name

def FilterSet.matchesAt (set : FilterSet) (name : Bytes) (index : Nat) : Bool :=
  match set.items[index]? with
  | some filter => nameMatches filter.name name
  | none => false

/-- `bloomd_filter_set_find_n`: the index found, and the set with its cache. -/
def FilterSet.findN (set : FilterSet) (name : Bytes) : Option Nat × FilterSet :=
  match set.lastIndex with
  | some last => if set.matchesAt name last then (some last, set) else scan
  | none => scan
where
  scan : Option Nat × FilterSet :=
    match set.items.findIdx? fun filter => nameMatches filter.name name with
    | some index => (some index, { set with lastIndex := some index })
    | none => (none, set)

/-- `bloomd_filter_set_add` -/
def filterSetAdd (set : FilterSet) (filter : Filter) : Sys (Except Errno FilterSet) := do
  if set.items.length = set.cap then
    match ← sysRealloc with
    | .error _ => pure (.error .enomem)
    | .ok () =>
      pure (.ok ⟨set.items ++ [filter], if set.cap = 0 then 8 else set.cap * 2,
        some set.items.length⟩)
  else pure (.ok { set with items := set.items ++ [filter], lastIndex := some set.items.length })

/-- The repair of the cached index after the removal at `index` -/
def repairedIndex (lastIndex : Option Nat) (index length : Nat) : Option Nat :=
  match lastIndex with
  | none => none
  | some last =>
    if length = 0 ∨ last = index ∨ length ≤ last then none
    else if index < last then some (last - 1)
    else some last

/-- `bloomd_filter_set_remove_n` -/
def filterSetRemoveN (set : FilterSet) (name : Bytes) : Sys (Except Errno Unit × FilterSet) :=
  match set.items.findIdx? fun filter => nameMatches filter.name name with
  | none => pure (.error .enoent, set)
  | some index => do
    match set.items[index]? with
    | none => pure (.error .enoent, set)
    | some filter =>
      let _ ← logBufferFlush filter.logFd filter.logBuf false
      let items := set.items.eraseIdx index
      pure (.ok (), { set with items, lastIndex := repairedIndex set.lastIndex index items.length })

/-- The loop of `bloomd_filter_set_free` -/
def freeFilters : List Filter → Sys Unit
  | [] => pure ()
  | filter :: rest => do
    let _ ← logBufferFlush filter.logFd filter.logBuf true
    freeFilters rest

/-- `bloomd_filter_set_free` -/
def filterSetFree (set : FilterSet) : Sys Unit := freeFilters set.items

end Bloomd
