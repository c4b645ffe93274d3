import Bloomd.LogCompletion
import Bloomd.FilterView

/-! Requests and syncs on a machine without faults: what each part returns when
every call succeeds. -/

namespace Bloomd

open CrashLogic Prog

section Metadata

variable {world : World} {metadata : FilterMeta} {filter : Filter}

/-- The text and the temporary path of a metadata write have room. -/
def Writable (metadata : FilterMeta) (pid : Nat) : Prop :=
  (metaBody metadata.toMetaRecord).length < 2048 ∧ (tempPath metadata.metaPath pid).length < pathMax

instance (metadata : FilterMeta) (pid : Nat) : Decidable (Writable metadata pid) :=
  inferInstanceAs (Decidable (_ ∧ _))

/-- Without faults a metadata write succeeds if and only if it has room. -/
theorem completes_metaWriteAtomic :
    Completes (metaWriteAtomic metadata) (fun result _ => result = .ok () ↔ Writable metadata world.pid) world := by
  unfold metaWriteAtomic
  split
  · rename_i long
    apply completes_pure
    constructor
    · nofun
    · intro room
      exact absurd room.1 (by omega)
  · rename_i short
    refine completes_bind (completes_inspect _ ?_)
    simp only
    split
    · rename_i long
      apply completes_pure
      constructor
      · nofun
      · intro room
        exact absurd room.2 (by omega)
    · rename_i fits
      have writable : Writable metadata world.pid := ⟨by omega, by omega⟩
      generalize tempPath metadata.metaPath world.pid = temp
      refine completes_bind (completes_attempt ?_)
      have fills : Completes (sysFillFile temp metadata.toMetaRecord)
          (fun result after => result = .ok () ∧ after.fileAt temp = some (some metadata.toMetaRecord))
          (world.setFile temp none) := by
        apply completes_call
        intro answer easy
        cases answer with
        | fail fault => exact easy.elim
        | interrupted => exact easy.elim
        | ok => exact ⟨rfl, by simp [World.fileAt]⟩
        | count n => exact ⟨rfl, by simp [World.fileAt]⟩
        | time now => exact ⟨rfl, by simp [World.fileAt]⟩
      refine completes_bind (fills.mono ?_)
      rintro _ after ⟨rfl, there⟩
      refine completes_bind (completes_attempt ?_)
      refine completes_bind (completes_attempt ?_)
      rw [there]
      refine completes_bind (completes_attempt ?_)
      refine completes_bind (completes_attempt ?_)
      exact completes_pure _ ⟨fun _ => writable, fun _ => rfl⟩

theorem completes_updateFilterMetaState (hasData logClean : Bool) :
    Completes (updateFilterMetaState filter hasData logClean) (fun result _ => result.2 =
      if Writable (filter.metadata.withState hasData logClean) world.pid then
        { filter with metadata := filter.metadata.withState hasData logClean }
      else filter) world := by
  apply completes_bind
  refine completes_metaWriteAtomic.mono ?_
  intro result after succeeds
  cases result with
  | error errno =>
    apply completes_pure
    rw [if_neg fun room => nomatch succeeds.mpr room]
  | ok done =>
    apply completes_pure
    rw [if_pos (succeeds.mp rfl)]

end Metadata

section Sync

variable {world : World} {filter : Filter} {log : LogFile}

/-- What a forced sync makes of a filter with data when every call succeeds -/
def Filter.syncedAt (filter : Filter) (now pid : Nat) : Filter :=
  if filter.logDirty then
    { filter with
      logBuf := []
      lastLogSyncMs := now
      logDirty := false
      metadata :=
        if !filter.metadata.logClean && !filter.logHistoryIncomplete &&
            decide (Writable (filter.metadata.withState true true) pid) then
          filter.metadata.withState true true
        else filter.metadata }
  else filter

theorem completes_syncFilterLog {path : Bytes} (data : filter.metadata.hasData = true)
    (opened : filter.logFd = some path) (present : world.logAt path = some log) (now : Nat) :
    Completes (syncFilterLog filter now true) (fun later _ => later = filter.syncedAt now world.pid) world := by
  unfold syncFilterLog Filter.syncedAt
  by_cases dirty : filter.logDirty = true
  · simp only [dirty, Bool.not_true, Bool.false_eq_true, ↓reduceIte, Bool.false_and]
    rw [opened]
    apply completes_bind
    refine (completes_logBufferFlush present filter.logBuf true).mono ?_
    rintro _ after ⟨rfl, moved⟩
    have pid : after.pid = world.pid := moved.pid
    simp only [data, Bool.true_and]
    by_cases eligible : (!filter.metadata.logClean && !filter.logHistoryIncomplete) = true
    · simp only [eligible, ↓reduceIte, Bool.true_and, decide_eq_true_eq]
      apply completes_bind
      refine (completes_updateFilterMetaState true true).mono ?_
      intro result last same
      apply completes_pure
      rw [same, pid]
      simp only
      split <;> rfl
    · simp only [eligible]
      exact completes_pure _ rfl
  · simp only [dirty]
    exact completes_pure _ rfl

/-- A filter without data has no log, and a sync gives it none. -/
theorem completes_syncFilterLog_closed (fresh : filter.metadata.hasData = false) (closed : filter.logFd = none)
    (now : Nat) :
    Completes (syncFilterLog filter now true) (fun later _ => later.metadata.hasData = false) world := by
  unfold syncFilterLog
  split
  · exact completes_pure _ fresh
  · simp only [Bool.not_true, Bool.false_and, Bool.false_eq_true, ↓reduceIte, closed]
    exact completes_bind (completes_pure _ (completes_pure _ fresh))

end Sync

section Create

variable {world : World} {daemon : Daemon}

theorem completes_bpfCreateMap {capacity hashes : Nat} (ranged : capacity ≠ 0 ∧ capacity < 2 ^ 32)
    (few : hashes ≤ 15) :
    Completes (bpfCreateMap capacity hashes) (fun result after => result = .ok world.maps.length ∧
      after = world.addMap ⟨createdMapInfo capacity hashes, []⟩) world := by
  unfold bpfCreateMap
  rw [if_neg (by omega), if_neg (by omega)]
  apply completes_bind
  apply completes_attempt
  exact completes_pure _ ⟨rfl, rfl⟩

theorem completes_filterSetAdd (set : FilterSet) (filter : Filter) :
    Completes (filterSetAdd set filter)
      (fun result _ => ∃ later, result = .ok later ∧ later.items = set.items ++ [filter]) world := by
  unfold filterSetAdd
  split
  · apply completes_bind
    apply completes_attempt
    exact completes_pure _ ⟨_, rfl, rfl⟩
  · exact completes_pure _ ⟨_, rfl, rfl⟩

/-- Without faults a filter whose metadata have room is installed. -/
theorem completes_installFilter {filter : Filter} (room : Writable filter.metadata world.pid) :
    Completes (installFilter daemon filter) (fun result _ => result.1 = .ok [] ∧
      result.2.set.items = daemon.set.items ++ [filter] ∧ result.2.pool = daemon.pool ∧
      result.2.config = daemon.config) world := by
  apply completes_bind
  apply completes_metaWriteAtomic.mono
  intro result after succeeds
  obtain rfl := succeeds.mpr room
  apply completes_bind
  apply (completes_filterSetAdd daemon.set filter).mono
  rintro _ last ⟨set, rfl, grown⟩
  exact completes_pure _ ⟨rfl, grown, rfl, rfl⟩

/-- Without faults a CREATE of a free name succeeds, if its fields are in range and its
paths and metadata have room. -/
theorem completes_handleCreate [Libm] {fields : CreateRequest} {metadata : FilterMeta}
    (valid : nameIsValid fields.name = true) (capacity : fields.capacity ≠ 0 ∧ fields.capacity < 2 ^ 32)
    (hashes : fields.hashes ≤ 15) (rate : rateInRange fields.errorRate = true)
    (free : (daemon.set.findN fields.name).1 = none)
    (assigned : assignFilterPaths daemon.config (newFilterMeta fields) = .ok metadata)
    (unpooled : daemon.pool = none) (room : Writable metadata world.pid) :
    Completes (handleCreate daemon fields) (fun result _ => result.1 = .ok [] ∧
      (∃ map, result.2.set.items = daemon.set.items ++ [Filter.fresh metadata map]) ∧ result.2.pool = none ∧
      result.2.config = daemon.config) world := by
  have few : metadata.hashes ≤ 15 := by
    obtain ⟨_, _, _, rfl⟩ := assignFilterPaths_ok assigned
    simp only [newFilterMeta]
    split
    · exact hashesForErrorRate_le _
    · exact hashes
  have ranged : metadata.capacity ≠ 0 ∧ metadata.capacity < 2 ^ 32 := by
    obtain ⟨_, _, _, rfl⟩ := assignFilterPaths_ok assigned
    exact capacity
  have bad : ¬ (fields.capacity = 0 ∨ 2 ^ 32 ≤ fields.capacity ∨ 15 < fields.hashes ∨
      (!rateInRange fields.errorRate) = true) := by
    rw [rate]
    simp only [Bool.not_true, Bool.false_eq_true, or_false]
    omega
  unfold handleCreate
  simp only [valid, Bool.not_true, Bool.false_eq_true, ↓reduceIte]
  rw [if_neg bad]
  simp only [free, Option.isSome_none, Bool.false_eq_true, ↓reduceIte, assigned, takeEmptyMap, unpooled]
  apply completes_bind
  apply (completes_bpfCreateMap ranged few).mono
  rintro _ after ⟨rfl, rfl⟩
  apply (completes_installFilter (by exact room)).mono
  rintro result last ⟨reply, items, pool, config⟩
  simp only [FilterSet.findN_items] at items
  exact ⟨reply, ⟨_, items⟩, pool, config⟩

end Create

end Bloomd
