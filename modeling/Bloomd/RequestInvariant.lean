import Bloomd.RunInvariant

/-! Requests and syncs keep every filter, whether they return or crash. -/

namespace Bloomd

open CrashLogic Prog

section Removal

variable {world : World} {path : Bytes} {good : World → Prop}

/-- What every append keeps, the write loop keeps, however far it gets. -/
theorem wp_writeAll (start : good world)
    (grows : ∀ before chunk, good before → good (before.changeLog path (·.append chunk)))
    (buf : Bytes) : wp (writeAll path buf) (fun _ after => good after) good world := by
  refine wp_loop (fun _ before => good before) (fun rest before held => ?_) start
  split
  · exact (wp_pure _).mpr held
  · have writes : wp (sysWrite path rest) (fun _ after => good after) good before := by
      refine (wp_call _).mpr ⟨held, fun answer => ?_⟩
      cases answer with
      | count n => exact grows before _ held
      | interrupted => exact held
      | fail fault => exact held
      | ok => exact grows before _ held
      | time now => exact grows before _ held
    refine wp_bind (writes.mono ?_ fun _ safe => safe)
    intro result after held
    cases result with
    | interrupted => exact (wp_pure _).mpr ⟨held, held⟩
    | failed errno => exact (wp_pure _).mpr held
    | moved n =>
      simp only
      split
      · exact (wp_pure _).mpr held
      · exact (wp_pure _).mpr ⟨held, held⟩

theorem wp_logBufferFlush (fd : Option Bytes) (own : fd = none ∨ fd = some path) (start : good world)
    (grows : ∀ before chunk, good before → good (before.changeLog path (·.append chunk)))
    (syncs : ∀ before, good before → good (before.changeLog path LogFile.synced))
    (buf : Bytes) (sync : Bool) :
    wp (logBufferFlush fd buf sync) (fun _ after => good after) good world := by
  rcases own with rfl | rfl
  · exact (wp_pure _).mpr start
  · refine wp_bind ((wp_writeAll start grows buf).mono ?_ fun _ safe => safe)
    intro result after held
    cases result with
    | error errno => exact (wp_pure _).mpr held
    | ok done =>
      simp only
      split
      · have fsync : wp (logSync (some path)) (fun _ last => good last) good after :=
          wp_attempt held (fun _ _ => held) (syncs after held)
        exact wp_bind (fsync.mono (fun _ _ held => (wp_pure _).mpr held) fun _ safe => safe)
      · exact (wp_pure _).mpr held

theorem wp_removePathIfExists {unlink : Sys (Except Errno Unit)}
    (unlinks : wp unlink (fun _ after => good after) good world) :
    wp (removePathIfExists unlink) (fun _ after => good after) good world := by
  refine wp_bind (unlinks.mono ?_ fun _ safe => safe)
  intro result after held
  cases result with
  | ok done => exact (wp_pure _).mpr held
  | error errno => exact (wp_pure _).mpr held

theorem wp_bpfUnpin (still : good world) (dropped : good (world.dropPin path)) :
    wp (bpfUnpin path) (fun _ after => good after) good world := by
  have unlinks : wp (sysUnlinkPin path) (fun _ after => good after) good world := by
    refine wp_attempt still (fun _ _ => still) ?_
    split
    · exact dropped
    · exact still
  refine wp_bind ((wp_removePathIfExists unlinks).mono ?_ fun _ safe => safe)
  intro result after held
  cases result with
  | ok done => exact (wp_pure _).mpr held
  | error errno => exact (wp_pure _).mpr held

theorem wp_logDelete (still : good world) (dropped : good (world.dropLog path)) :
    wp (logDelete path) (fun _ after => good after) good world := by
  refine wp_removePathIfExists (wp_attempt still (fun _ _ => still) ?_)
  split
  · exact dropped
  · exact still

theorem wp_bpfPinMap (map : Nat) (still : good world)
    (pinned : world.pinAt path = none → good (world.setPin path map)) :
    wp (bpfPinMap map path) (fun _ after => good after) good world := by
  have pins : wp (sysObjPin map path) (fun _ after => good after) good world := by
    refine wp_attempt still (fun _ _ => still) ?_
    split
    · exact still
    · rename_i free
      exact pinned free
  refine wp_bind (pins.mono ?_ fun _ safe => safe)
  intro result after held
  cases result with
  | ok done => exact (wp_pure _).mpr held
  | error errno => exact (wp_pure _).mpr held

/-- The metadata file is gone after a successful removal, and nothing else is. -/
theorem wp_metaDelete : wp (metaDelete path)
    (fun result after => match result with
      | .ok _ => after.fileAt path = none ∧ (after = world ∨ after = world.dropFile path)
      | .error _ => after = world)
    (fun after => after = world) world := by
  have unlinks : wp (sysUnlinkFile path)
      (fun result after => match result with
        | .ok _ => after.fileAt path = none ∧ (after = world ∨ after = world.dropFile path)
        | .error errno => after = world ∧ (errno = .enoent → world.fileAt path = none))
      (fun after => after = world) world := by
    refine wp_attempt rfl (fun errno transient => ⟨rfl, fun same => ?_⟩) ?_
    · exact absurd same transient.ne_enoent
    · cases present : world.fileAt path with
      | some file => exact ⟨by simp [World.fileAt], Or.inr rfl⟩
      | none => exact ⟨rfl, fun _ => rfl⟩
  refine wp_bind (unlinks.mono ?_ fun _ same => same)
  intro result after held
  cases result with
  | ok done => exact (wp_pure _).mpr held
  | error errno =>
    obtain ⟨rfl, missing⟩ := held
    refine (wp_pure _).mpr ?_
    split
    · rename_i failed
      split at failed
      · rename_i absent
        exact ⟨missing absent, Or.inl rfl⟩
      · cases failed
    · rfl

end Removal

section

variable {roots : Config} {upkeep : Upkeep roots} {daemon : Daemon} {mode : LogSyncMode}
  {added : Bytes → List Digest} {world : World}

theorem PooledMap.Usable.grown {pooled : PooledMap} (usable : pooled.Usable before)
    (grown : Grown before.maps after.maps) : pooled.Usable after :=
  fun record capacity hashes valueSize => (usable record capacity hashes valueSize).grown grown

theorem Serving.named (serving : Serving upkeep daemon added world) :
    ∀ filter ∈ daemon.set.items, nameIsValid filter.name = true :=
  fun filter member => (serving.tended.settled filter member).seated.placed.valid

theorem addedBy_self (daemon : Daemon) (name : Bytes) (world : World) :
    addedBy daemon name world world = [] := by
  unfold addedBy
  split
  · simp
  · rfl

/-- The digests added by a request that found its filter -/
theorem addedBy_found (located : (daemon.set.findN name).1 = some index)
    (found : daemon.set.items[index]? = some filter) (before after : World) :
    addedBy daemon name before after = news filter.mapFd before after := by
  simp [addedBy, located, found, news]

theorem update_append_nil (added : Bytes → List Digest) (name : Bytes) :
    Function.update added name (added name ++ []) = added := by
  rw [List.append_nil, Function.update_eq_self]

/-- A lookup moves only the cached index. -/
theorem Serving.looked (serving : Serving upkeep daemon added world) (name : Bytes) :
    Serving upkeep { daemon with set := (daemon.set.findN name).2 } added world where
  config := serving.config
  pool := serving.pool
  tended := by simpa using serving.tended

theorem Serving.apart (serving : Serving upkeep daemon added world)
    (apart : ∀ name, Apart name world after) : Serving upkeep daemon added after where
  config := serving.config
  pool pooled member := (serving.pool pooled member).grown (apart []).maps
  tended := serving.tended.apart apart

/-- Work on a filter that is looked up by a valid name -/
theorem wp_withFilter {work : Filter → Sys (Reply × Filter)} {post : Reply × Daemon → World → Prop}
    {crash : World → Prop} (serving : Serving upkeep daemon added world)
    (valid : nameIsValid name = true)
    (missing : ∀ reply, post (reply, { daemon with set := (daemon.set.findN name).2 }) world)
    (works : ∀ index filter, (daemon.set.findN name).1 = some index →
      daemon.set.items[index]? = some filter → filter.name = name →
      wp (work filter) (fun result after => post (result.1, { daemon with
        set := { (daemon.set.findN name).2 with
          items := daemon.set.items.set index result.2 } }) after) crash world) :
    wp (withFilter daemon name work) post crash world := by
  unfold withFilter
  simp only
  cases located : (daemon.set.findN name).1 with
  | none => exact (wp_pure _).mpr (missing _)
  | some index =>
    obtain ⟨filter, found, named⟩ := FilterSet.findN_name serving.named valid located
    simp only [FilterSet.findN_items, found]
    refine wp_bind ((works index filter located found named).mono ?_ fun _ safe => safe)
    intro result after held
    exact (wp_pure _).mpr held

/-- The daemon after work on one of its filters -/
theorem Serving.replace {history : Bytes → List Digest} {filter later : Filter}
    (serving : Serving upkeep daemon added world) (found : daemon.set.items[index]? = some filter)
    (within : Within filter.name world after) (follows : Follows roots filter later)
    (others : ∀ other, other ≠ filter.name → history other = added other)
    (own : upkeep.live daemon.config.logSyncMode later (history filter.name) after)
    (set : FilterSet) : Serving upkeep
      { daemon with set := { set with items := daemon.set.items.set index later } } history after where
  config := serving.config
  pool pooled member := (serving.pool pooled member).grown within.maps
  tended := serving.tended.replace found within follows others own

/-- ADD and MADD: the digests that reached the map join the history. -/
theorem wp_withFilter_adding {work : Filter → Sys (Reply × Filter)}
    (serving : Serving upkeep daemon added world) (valid : nameIsValid name = true)
    (frame : ∀ filter, Seated roots filter →
      StaysWithin filter.name (work filter) fun result => Follows roots filter result.2)
    (works : ∀ filter history, Settled roots filter world → filter.name = name →
      upkeep.live daemon.config.logSyncMode filter history world →
      wp (work filter)
        (fun result after => upkeep.live daemon.config.logSyncMode result.2
          (history ++ news filter.mapFd world after) after)
        (fun after => upkeep.disk filter.name (history ++ news filter.mapFd world after) after) world) :
    wp (withFilter daemon name work)
      (fun result after => Serving upkeep result.2
        (Function.update added name (added name ++ addedBy daemon name world after)) after)
      (fun after => Resting upkeep
        (Function.update added name (added name ++ addedBy daemon name world after)) after) world := by
  refine wp_withFilter serving valid ?_ ?_
  · intro reply
    rw [addedBy_self, update_append_nil]
    exact serving.looked name
  · intro index filter located found named
    subst named
    have member := List.mem_of_getElem? found
    have settled := serving.tended.settled filter member
    have own := works filter _ settled rfl (serving.tended.live filter member)
    refine (own.keeps (frame filter settled.seated)).mono ?_ ?_
    · rintro result after ⟨live, follows, within⟩
      rw [addedBy_found located found]
      refine serving.replace found within follows ?_ ?_ _
      · intro other different
        exact Function.update_of_ne different _ _
      · rw [Function.update_self]
        exact live
    · rintro after ⟨disk, within⟩
      rw [addedBy_found located found]
      refine serving.tended.crash.within within ?_ ?_
      · intro other different
        exact Function.update_of_ne different _ _
      · rw [Function.update_self]
        exact disk

/-- A check leaves the world as it is. -/
theorem wp_bpfCheckDigest (map : Nat) (digest : Digest) (world : World) :
    wp (bpfCheckDigest map digest) (fun _ after => after = world) (fun after => after = world)
      world := by
  have lookup : wp (sysMapLookup map digest) (fun _ after => after = world)
      (fun after => after = world) world :=
    (wp_call _).mpr ⟨rfl, fun answer => by cases answer <;> rfl⟩
  refine wp_bind (lookup.mono ?_ fun _ same => same)
  rintro result after rfl
  cases result with
  | ok done => exact (wp_pure _).mpr rfl
  | error errno =>
    simp only
    split
    · exact (wp_pure _).mpr rfl
    · exact (wp_pure _).mpr rfl

theorem wp_checkDigest (filter : Filter) (digest : Digest) (world : World) :
    wp (checkDigest filter digest)
      (fun result after => after = world ∧ ∃ checks, result.2 = { filter with checkCalls := checks })
      (fun after => after = world) world := by
  refine wp_bind ((wp_bpfCheckDigest _ digest world).mono ?_ fun _ same => same)
  rintro result after rfl
  cases result with
  | error failure => exact (wp_pure _).mpr ⟨rfl, filter.checkCalls, rfl⟩
  | ok present => exact (wp_pure _).mpr ⟨rfl, _, rfl⟩

theorem wp_checkItems (filter : Filter) (digests : List Digest) (world : World) :
    wp (checkItems filter digests) (fun _ after => after = world) (fun after => after = world)
      world := by
  induction digests with
  | nil => exact (wp_pure _).mpr rfl
  | cons digest rest ih =>
    refine wp_bind ((wp_bpfCheckDigest _ digest world).mono ?_ fun _ same => same)
    rintro result after rfl
    cases result with
    | error failure => exact (wp_pure _).mpr rfl
    | ok present =>
      refine wp_bind (ih.mono ?_ fun _ same => same)
      rintro results last rfl
      cases results with
      | error reply => exact (wp_pure _).mpr rfl
      | ok values => exact (wp_pure _).mpr rfl

theorem wp_checkBatch (filter : Filter) (digests : List Digest) (world : World) :
    wp (checkBatch filter digests)
      (fun result after => after = world ∧
        ∃ checks, result.2 = { filter with batchCheckCalls := checks })
      (fun after => after = world) world := by
  refine wp_bind ((wp_checkItems filter digests world).mono ?_ fun _ same => same)
  rintro result after rfl
  cases result with
  | error reply => exact (wp_pure _).mpr ⟨rfl, filter.batchCheckCalls, rfl⟩
  | ok results => exact (wp_pure _).mpr ⟨rfl, _, rfl⟩

/-- CHECK and MCHECK count and change nothing else. -/
theorem wp_withFilter_checking {work : Filter → Sys (Reply × Filter)}
    (serving : Serving upkeep daemon added world) (valid : nameIsValid name = true)
    (works : ∀ filter, wp (work filter)
      (fun result after => after = world ∧ ∃ checks batches,
        result.2 = { filter with checkCalls := checks, batchCheckCalls := batches })
      (fun after => after = world) world) :
    wp (withFilter daemon name work)
      (fun result after => Serving upkeep result.2 added after)
      (fun after => Resting upkeep added after) world := by
  refine wp_withFilter serving valid (fun _ => serving.looked name) ?_
  intro index filter located found named
  have member := List.mem_of_getElem? found
  have settled := serving.tended.settled filter member
  refine (works filter).mono ?_ ?_
  · rintro result after ⟨rfl, checks, batches, same⟩
    refine serving.replace found (refl after) ?_ (fun _ _ => rfl) ?_ _
    · rw [same]
      exact ⟨⟨settled.seated.placed, settled.seated.fd⟩, rfl, rfl, id⟩
    · rw [same]
      exact upkeep.counted checks batches (serving.tended.live filter member)
  · rintro after rfl
    exact serving.tended.crash

theorem wp_dropMetadata {filter : Filter} {history : List Digest}
    (settled : Settled roots filter world) (live : upkeep.live mode filter history world) :
    wp (dropMetadata filter)
      (fun result after => match result with
        | .ok _ => after.fileAt filter.metadata.metaPath = none
        | .error _ => upkeep.live mode filter history after)
      (fun after => upkeep.disk filter.name history after) world := by
  have placed := settled.seated.placed
  have disk := upkeep.crash settled live
  refine wp_bind (wp_metaDelete.mono ?_ fun after same => same ▸ disk)
  intro result after held
  cases result with
  | error errno =>
    obtain rfl := held
    simp only
    split
    · rename_i durable
      have pinned := upkeep.live_pinned settled durable live
      have pins : wp (bpfPinMap filter.mapFd filter.metadata.pinPath)
          (fun _ last => upkeep.live mode filter history last ∧ upkeep.disk filter.name history last)
          (fun last => upkeep.live mode filter history last ∧ upkeep.disk filter.name history last)
          after :=
        wp_bpfPinMap filter.mapFd ⟨live, disk⟩ fun _ =>
          ⟨pinned, upkeep.crash ⟨settled.seated, settled.matched⟩ pinned⟩
      exact wp_bind (pins.mono (fun _ _ kept => (wp_pure _).mpr kept.1) fun _ kept => kept.2)
    · exact (wp_pure _).mpr live
  | ok done =>
    obtain ⟨absent, _⟩ := held
    have gone : ∀ last : World, last.fileAt filter.metadata.metaPath = none →
        upkeep.disk filter.name history last := by
      intro last missing
      exact upkeep.absent placed.valid (placed.file ▸ missing)
    simp only
    split
    · have deletes : wp (logDelete filter.metadata.logPath)
          (fun _ last => last.fileAt filter.metadata.metaPath = none)
          (fun last => last.fileAt filter.metadata.metaPath = none) after :=
        wp_logDelete absent absent
      exact wp_bind (deletes.mono (fun _ _ missing => (wp_pure _).mpr missing) gone)
    · exact (wp_pure _).mpr absent

/-- A DROP either fails and keeps the filter, or the metadata file is gone. -/
theorem wp_dropFiles {filter : Filter} {history : List Digest}
    (settled : Settled roots filter world) (live : upkeep.live mode filter history world) :
    wp (dropFiles filter)
      (fun result after => match result with
        | .ok _ => after.fileAt filter.metadata.metaPath = none
        | .error _ => upkeep.live mode filter history after)
      (fun after => upkeep.disk filter.name history after) world := by
  unfold dropFiles
  split
  · have unpins : wp (bpfUnpin filter.metadata.pinPath)
        (fun _ after => Settled roots filter after ∧ upkeep.live mode filter history after)
        (fun after => Settled roots filter after ∧ upkeep.live mode filter history after) world :=
      wp_bpfUnpin ⟨settled, live⟩
        ⟨⟨settled.seated, settled.matched⟩, upkeep.live_unpinned settled live⟩
    refine wp_bind (unpins.mono ?_ ?_)
    · rintro result after ⟨settled, live⟩
      cases result with
      | error failure => exact (wp_pure _).mpr live
      | ok done => exact wp_dropMetadata settled live
    · rintro after ⟨settled, live⟩
      exact upkeep.crash settled live
  · exact wp_dropMetadata settled live

theorem Serving.found_index {filter : Filter} {index : Nat} (serving : Serving upkeep daemon added world)
    (found : daemon.set.items[index]? = some filter) :
    (daemon.set.items.findIdx? fun other => nameMatches other.name filter.name) = some index := by
  have member := List.mem_of_getElem? found
  have valid := serving.named filter member
  cases located : daemon.set.items.findIdx? fun other => nameMatches other.name filter.name with
  | none =>
    have unmatched := List.findIdx?_eq_none_iff.mp located filter member
    rw [(nameMatches_iff valid valid).mpr rfl] at unmatched
    cases unmatched
  | some position =>
    obtain ⟨bound, matched, _⟩ := List.findIdx?_eq_some_iff_getElem.mp located
    have there := List.getElem?_eq_getElem bound
    have same := (nameMatches_iff (serving.named _ (List.mem_of_getElem? there)) valid).mp matched
    rw [index_of_name serving.tended.unique there found same]

theorem wp_removeDropped {filter : Filter} {index : Nat}
    (serving : Serving upkeep daemon added before)
    (found : daemon.set.items[index]? = some filter) (within : Within filter.name before world)
    (absent : world.fileAt filter.metadata.metaPath = none) :
    wp (removeDropped daemon filter.name filter)
      (fun result after => Serving upkeep result.2 added after)
      (fun after => Resting upkeep added after) world := by
  have settled := serving.tended.settled filter (List.mem_of_getElem? found)
  have seated := settled.seated
  have gone : ∀ last : World, last.fileAt filter.metadata.metaPath = none →
      upkeep.disk filter.name (added filter.name) last := by
    intro last missing
    exact upkeep.absent seated.placed.valid (seated.placed.file ▸ missing)
  have flushes : wp (logBufferFlush filter.logFd filter.logBuf false)
      (fun _ after => after.fileAt filter.metadata.metaPath = none)
      (fun after => after.fileAt filter.metadata.metaPath = none) world :=
    wp_logBufferFlush _ seated.fd absent (fun _ _ missing => by simpa [World.fileAt] using missing)
      (fun _ missing => by simpa [World.fileAt] using missing) _ _
  unfold removeDropped filterSetRemoveN
  rw [serving.found_index found]
  simp only [found]
  refine wp_bind (wp_bind ((wp_within filter.name (keeps_logBufferFlush seated _ _) flushes).mono ?_ ?_))
  · rintro result after ⟨missing, _, flushed⟩
    have moved := IsTrans.trans _ _ _ within flushed
    refine (wp_pure _).mpr ((wp_pure _).mpr ⟨serving.config, ?_, ?_⟩)
    · intro pooled member
      simp only at member
      split at member
      · exact (serving.pool pooled member).grown moved.maps
      · obtain rfl : _ = pooled := by simpa using member
        intro record capacity hashes valueSize
        obtain ⟨kernel, there, matching⟩ := settled.matched.grown moved.maps
        exact ⟨kernel, there, matching.type, matching.keySize, matching.valueSize.trans valueSize.symm,
          matching.maxEntries.trans capacity.symm, matching.mapExtra.trans hashes.symm⟩
    · exact serving.tended.remove found moved (gone after missing)
  · rintro after ⟨missing, flushed⟩
    exact serving.tended.crash.within (IsTrans.trans _ _ _ within flushed) (fun _ _ => rfl)
      (gone after missing)

theorem wp_handleDrop (serving : Serving upkeep daemon added world) (name : Bytes) :
    wp (handleDrop daemon name) (fun result after => Serving upkeep result.2 added after)
      (fun after => Resting upkeep added after) world := by
  unfold handleDrop
  split
  · exact (wp_pure _).mpr serving
  · rename_i known
    have valid : nameIsValid name = true := by simpa using known
    simp only
    cases located : (daemon.set.findN name).1 with
    | none => exact (wp_pure _).mpr (serving.looked name)
    | some index =>
      obtain ⟨filter, found, rfl⟩ := FilterSet.findN_name serving.named valid located
      simp only [FilterSet.findN_items, found]
      have member := List.mem_of_getElem? found
      have settled := serving.tended.settled filter member
      have drops := wp_dropFiles settled (serving.tended.live filter member)
      refine wp_bind ((wp_within filter.name (keeps_dropFiles settled.seated) drops).mono ?_ ?_)
      · rintro result after ⟨held, _, within⟩
        cases result with
        | error reply =>
          refine (wp_pure _).mpr ⟨serving.config, ?_, ?_⟩
          · exact fun pooled pool => (serving.pool pooled pool).grown within.maps
          · have kept := serving.tended.replace found within (.refl settled.seated) (fun _ _ => rfl) held
            obtain ⟨bound, there⟩ := List.getElem?_eq_some_iff.mp found
            rw [← there, List.set_getElem_self] at kept
            simpa using kept
        | ok done =>
          exact wp_removeDropped (serving.looked filter.name) (by simpa using found) within held
      · rintro after ⟨disk, within⟩
        exact serving.tended.crash.within within (fun _ _ => rfl) disk

theorem hashesForErrorRate_le [Libm] (rate : UInt64) : hashesForErrorRate rate ≤ 15 := by
  unfold hashesForErrorRate
  split
  · omega
  · split
    · omega
    · split
      · omega
      · omega

theorem created_of_assignFilterPaths [Libm] {request : CreateRequest} {metadata : FilterMeta}
    (valid : nameIsValid request.name = true)
    (ranges : ¬ (request.capacity = 0 ∨ 2 ^ 32 ≤ request.capacity ∨ 15 < request.hashes ∨
      (!rateInRange request.errorRate) = true))
    (assigned : assignFilterPaths (roots.withMode mode) (newFilterMeta request) = .ok metadata) :
    Created roots metadata ∧ metadata.name = request.name := by
  obtain ⟨capacity, ranges⟩ := not_or.mp ranges
  obtain ⟨large, ranges⟩ := not_or.mp ranges
  obtain ⟨hashes, rate⟩ := not_or.mp ranges
  have bounded : (newFilterMeta request).hashes ≤ 15 := by
    unfold newFilterMeta
    split
    · exact hashesForErrorRate_le _
    · exact Nat.not_lt.mp hashes
  have valid : nameIsValid (newFilterMeta request).name = true := valid
  have passes : (newFilterMeta request).toMetaRecord.isValid = true := by
    have rate : rateInRange request.errorRate = true := by simpa using rate
    have rate : rateInRange (newFilterMeta request).errorRate = true := rate
    have positive : (newFilterMeta request).capacity ≠ 0 := capacity
    have wide : (newFilterMeta request).capacity < 2 ^ 64 := by
      have narrow : (newFilterMeta request).capacity < 2 ^ 32 := Nat.not_le.mp large
      omega
    simp only [MetaRecord.isValid, valid, rate, bounded, wide, Bool.and_true, decide_true, Bool.and_eq_true,
      bne_iff_ne]
    exact ⟨⟨⟨⟨rfl, rfl⟩, rfl⟩, rfl⟩, positive⟩
  obtain ⟨metaOk, logOk, pinOk, rfl⟩ := assignFilterPaths_ok assigned
  exact ⟨⟨⟨valid, rfl, rfl, leaf_pinPathOf _ valid⟩, rfl, metaOk, logOk, pinOk,
    ⟨Nat.pos_of_ne_zero capacity, Nat.not_le.mp large⟩, bounded, rfl, passes, rfl, rfl⟩, rfl⟩

theorem matching_created {record : MetaRecord} (capacity : record.capacity < 2 ^ 32)
    (hashes : record.hashes ≤ 15) (valueSize : record.valueSize = digestSize) :
    Matching record (createdMapInfo record.capacity record.hashes) where
  type := rfl
  keySize := rfl
  valueSize := valueSize.symm
  maxEntries := Nat.mod_eq_of_lt capacity
  mapExtra := by
    have mask : ∀ hashes : Nat, hashes &&& 0x0f = hashes % 2 ^ 4 := fun hashes =>
      Nat.and_two_pow_sub_one_eq_mod hashes 4
    simp only [createdMapInfo, mask]
    omega

/-- The two results of the creation of a map -/
inductive CreatesMap (capacity hashes : Nat) (world : World) : Except Failure Nat → World → Prop where
  | made (small : capacity < 2 ^ 32) :
      CreatesMap capacity hashes world (.ok world.maps.length) (world.addMap ⟨createdMapInfo capacity hashes, []⟩)
  | refused (failure : Failure) (other : failure.errno ≠ .enoent) :
      CreatesMap capacity hashes world (.error failure) world

theorem wp_bpfCreateMap (capacity hashes : Nat) (world : World) :
    wp (bpfCreateMap capacity hashes) (CreatesMap capacity hashes world) (fun after => after = world) world := by
  unfold bpfCreateMap
  split
  · exact (wp_pure _).mpr (.refused _ Errno.noConfusion)
  · rename_i small
    split
    · exact (wp_pure _).mpr (.refused _ Errno.noConfusion)
    · refine wp_bind (wp_attempt rfl ?_ ?_)
      · exact fun errno transient => (wp_pure _).mpr (.refused _ transient.ne_enoent)
      · exact (wp_pure _).mpr (.made (by omega))

/-- The histories after a CREATE -/
def createdHistory (path name : Bytes) (before after : World) (added : Bytes → List Digest) :
    Bytes → List Digest :=
  if after.fileAt path = before.fileAt path then added else Function.update added name []

theorem createdHistory_self (path name : Bytes) (before after : World)
    (added : Bytes → List Digest) :
    createdHistory path name before after added name = renewed path before after (added name) := by
  unfold createdHistory renewed
  split
  · rfl
  · exact Function.update_self ..

theorem createdHistory_other (path : Bytes) (before after : World) (added : Bytes → List Digest)
    (different : other ≠ name) : createdHistory path name before after added other = added other := by
  unfold createdHistory
  split
  · rfl
  · exact Function.update_of_ne different _ _

theorem staysWithin_uninstall {metadata : FilterMeta} (placed : Placed roots metadata)
    (reply : Reply) (daemon : Daemon) :
    StaysWithin metadata.name (uninstall metadata reply daemon) fun result => result.2 = daemon :=
  .bind (keeps_metaDelete placed) fun _ _ =>
    .bind (keeps_logDelete placed.logLeaf) fun _ _ =>
      .bind (keeps_unpin placed.pin) fun _ _ => .pure rfl

theorem wp_uninstall {metadata : FilterMeta} {history : List Digest}
    (created : Created roots metadata) (settled : Settled roots (.fresh metadata map) world)
    (live : upkeep.live mode (.fresh metadata map)
      (renewed metadata.metaPath before world history) world) (reply : Reply) (daemon : Daemon) :
    wp (uninstall metadata reply daemon)
      (fun _ after =>
        upkeep.disk metadata.name (renewed metadata.metaPath before after history) after)
      (fun after =>
        upkeep.disk metadata.name (renewed metadata.metaPath before after history) after) world := by
  let kept (last : World) : Prop := last.fileAt metadata.metaPath = none ∨
    (last.fileAt metadata.metaPath = world.fileAt metadata.metaPath ∧
      upkeep.disk metadata.name (renewed metadata.metaPath before world history) last)
  have disk := upkeep.crash settled live
  have safe : ∀ last, kept last →
      upkeep.disk metadata.name (renewed metadata.metaPath before last history) last := by
    rintro last (missing | ⟨same, disk⟩)
    · exact upkeep.absent created.placed.valid (created.placed.file ▸ missing)
    · rw [renewed, same]
      exact disk
  refine wp_bind (wp_metaDelete.mono ?_ fun _ same => same ▸ safe world (Or.inr ⟨rfl, disk⟩))
  intro result after deleted
  have deletes : wp (logDelete metadata.logPath) (fun _ last => kept last) kept after := by
    cases result with
    | ok done => exact wp_logDelete (Or.inl deleted.1) (Or.inl deleted.1)
    | error errno =>
      obtain rfl := deleted
      exact wp_logDelete (Or.inr ⟨rfl, disk⟩) (Or.inr ⟨rfl, upkeep.unlogged created live⟩)
  refine wp_bind (deletes.mono ?_ safe)
  intro _ middle held
  have unpins : wp (bpfUnpin metadata.pinPath) (fun _ last => kept last) kept middle := by
    refine wp_bpfUnpin held ?_
    rcases held with missing | ⟨same, disk⟩
    · exact Or.inl missing
    · exact Or.inr ⟨same, upkeep.unpinned created.placed.pin disk⟩
  exact wp_bind (unpins.mono (fun _ last held => (wp_pure _).mpr (safe last held)) safe)

theorem wp_filterSetAdd (set : FilterSet) (filter : Filter) (world : World) :
    wp (filterSetAdd set filter)
      (fun result after => after = world ∧ ∀ later, result = .ok later →
        later.items = set.items ++ [filter])
      (fun after => after = world) world := by
  unfold filterSetAdd
  split
  · refine wp_bind (wp_attempt rfl (fun errno _ => ?_) ?_)
    · exact (wp_pure _).mpr ⟨rfl, fun _ added => by cases added⟩
    · exact (wp_pure _).mpr ⟨rfl, fun _ added => by cases added; rfl⟩
  · exact (wp_pure _).mpr ⟨rfl, fun _ added => by cases added; rfl⟩

theorem wp_installFilter {metadata : FilterMeta} (serving : Serving upkeep daemon added world)
    (missing : ∀ other ∈ daemon.set.items, other.name ≠ metadata.name)
    (created : Created roots metadata) (settled : Settled roots (.fresh metadata map) world)
    (creatable : upkeep.creatable metadata.name)
    (same : world.fileAt metadata.metaPath = before.fileAt metadata.metaPath) :
    wp (installFilter daemon (.fresh metadata map))
      (fun result after => Serving upkeep result.2
        (createdHistory metadata.metaPath metadata.name before after added) after)
      (fun after => Resting upkeep
        (createdHistory metadata.metaPath metadata.name before after added) after) world := by
  have valid := created.placed.valid
  have disk := serving.tended.disk metadata.name valid missing
  have others : ∀ after other, other ≠ metadata.name →
      createdHistory metadata.metaPath metadata.name before after added other = added other :=
    fun after other different => createdHistory_other _ _ _ _ different
  have own : ∀ after, renewed metadata.metaPath world after (added metadata.name) =
      renewed metadata.metaPath before after (added metadata.name) := by
    intro after
    rw [renewed, renewed, same]
  have writes := wp_within metadata.name (keeps_metaWriteAtomic created.placed)
    (upkeep.create daemon.config.logSyncMode creatable created settled disk)
  refine wp_bind (writes.mono ?_ ?_)
  · rintro result after ⟨⟨disk, live⟩, _, within⟩
    rw [own] at disk live
    have later := settled.follows (.refl settled.seated) within.maps
    cases result with
    | error errno =>
      refine (wp_pure _).mpr ⟨serving.config, ?_, ?_⟩
      · exact fun pooled pool => (serving.pool pooled pool).grown within.maps
      · refine serving.tended.beside missing within (others after) fun _ => ?_
        rwa [createdHistory_self]
    | ok done =>
      have live := live rfl
      have adds := wp_filterSetAdd daemon.set (.fresh metadata map) after
      refine wp_bind (adds.mono ?_ ?_)
      · rintro addition last ⟨rfl, items⟩
        cases addition with
        | ok set =>
          refine (wp_pure _).mpr ⟨serving.config, ?_, ?_⟩
          · exact fun pooled pool => (serving.pool pooled pool).grown within.maps
          · rw [items set rfl]
            refine serving.tended.push missing within later (others last) ?_
            exact (createdHistory_self ..).symm ▸ live
        | error errno =>
          have cleans := (wp_uninstall created later live
            (.error .internal .none "too many filters") daemon).keeps
              (staysWithin_uninstall created.placed _ daemon)
          refine cleans.mono ?_ ?_
          · rintro result final ⟨disk, rfl, cleaned⟩
            have moved := IsTrans.trans _ _ _ within cleaned
            refine ⟨serving.config, ?_, ?_⟩
            · exact fun pooled pool => (serving.pool pooled pool).grown moved.maps
            · refine serving.tended.beside missing moved (others final) fun _ => ?_
              rwa [createdHistory_self]
          · rintro final ⟨disk, cleaned⟩
            refine serving.tended.crash.within (IsTrans.trans _ _ _ within cleaned) (others final) ?_
            rwa [createdHistory_self]
      · rintro last rfl
        refine serving.tended.crash.within within (others last) ?_
        rwa [createdHistory_self]
  · rintro after ⟨disk, within⟩
    rw [own] at disk
    refine serving.tended.crash.within within (others after) ?_
    rwa [createdHistory_self]

theorem createdHistory_same (path name : Bytes) (world : World) (added : Bytes → List Digest) :
    createdHistory path name world world added = added := if_pos rfl

theorem Serving.takeEmptyMap (serving : Serving upkeep daemon added world)
    (capacity hashes valueSize : Nat) :
    Serving upkeep (takeEmptyMap daemon capacity hashes valueSize).2 added world := by
  unfold Bloomd.takeEmptyMap
  split
  · split
    · exact ⟨serving.config, fun _ emptied => by simp at emptied, serving.tended⟩
    · exact ⟨serving.config, serving.pool, serving.tended⟩
  · exact ⟨serving.config, serving.pool, serving.tended⟩

theorem takeEmptyMap_items (daemon : Daemon) (capacity hashes valueSize : Nat) :
    (takeEmptyMap daemon capacity hashes valueSize).2.set = daemon.set := by
  unfold takeEmptyMap
  split
  · split <;> rfl
  · rfl

theorem Serving.matched_taken {record : MetaRecord} (serving : Serving upkeep daemon added world)
    (taken : (Bloomd.takeEmptyMap daemon record.capacity record.hashes record.valueSize).1 = some map) :
    Matched record map world := by
  unfold Bloomd.takeEmptyMap at taken
  split at taken
  · rename_i pooled holds
    split at taken
    · rename_i same
      obtain rfl : pooled.mapFd = map := by simpa using taken
      exact serving.pool pooled (by simp [holds]) record same.1.symm same.2.1.symm same.2.2.symm
    · cases taken
  · cases taken

theorem wp_handleCreate [Libm] {request : CreateRequest}
    (serving : Serving upkeep daemon added world) (creatable : upkeep.creatable request.name) :
    wp (handleCreate daemon request)
      (fun result after => Serving upkeep result.2
        (createdHistory (roots.metaPathOf request.name) request.name world after added) after)
      (fun after => Resting upkeep
        (createdHistory (roots.metaPathOf request.name) request.name world after added) after)
      world := by
  have still : ∀ other : Daemon, Serving upkeep other added world → Serving upkeep other
      (createdHistory (roots.metaPathOf request.name) request.name world world added) world := by
    intro other held
    rwa [createdHistory_same]
  unfold handleCreate
  split
  · exact (wp_pure _).mpr (still _ serving)
  rename_i named
  split
  · exact (wp_pure _).mpr (still _ serving)
  rename_i ranges
  have valid : nameIsValid request.name = true := by simpa using named
  simp only
  split
  · exact (wp_pure _).mpr (still _ (serving.looked _))
  rename_i unfound
  have unserved : ∀ other ∈ daemon.set.items, other.name ≠ request.name :=
    FilterSet.findN_missing serving.named valid (by simpa using unfound)
  split
  · exact (wp_pure _).mpr (still _ (serving.looked _))
  rename_i metadata assigned
  rw [serving.config] at assigned
  obtain ⟨created, same⟩ := created_of_assignFilterPaths valid ranges assigned
  rw [← same] at unserved creatable ⊢
  rw [← created.placed.file]
  have looked := serving.looked metadata.name
  have taken := looked.takeEmptyMap metadata.capacity metadata.hashes metadata.valueSize
  have missing : ∀ other ∈ (takeEmptyMap { daemon with set := (daemon.set.findN metadata.name).2 }
      metadata.capacity metadata.hashes metadata.valueSize).2.set.items,
      other.name ≠ metadata.name := by
    rw [takeEmptyMap_items]
    simpa using unserved
  split
  · rename_i map pool
    exact wp_installFilter taken missing created
      ⟨⟨created.placed, Or.inl rfl⟩, looked.matched_taken pool⟩ creatable rfl
  · refine wp_bind ((wp_bpfCreateMap metadata.capacity metadata.hashes world).mono ?_ ?_)
    · intro result after held
      cases held with
      | refused failure =>
        simp only
        split
        · refine (wp_pure _).mpr ?_
          rwa [createdHistory_same]
        · refine (wp_pure _).mpr ?_
          rwa [createdHistory_same]
      | made =>
        refine wp_installFilter (taken.apart fun name => .addMap name world _) missing created
          ⟨⟨created.placed, Or.inl rfl⟩, ?_⟩ creatable rfl
        exact ⟨_, List.getElem?_concat_length,
          matching_created created.capacity.2 created.hashes created.valueSize⟩
    · rintro after rfl
      rw [createdHistory_same]
      exact serving.tended.crash

/-- Every request keeps every filter, wherever it stops. -/
theorem wp_handle [Libm] {request : Request} (serving : Serving upkeep daemon added world)
    (allowed : Allowed upkeep ⟨world, some daemon, added⟩ (.request request answers)) :
    wp (handle daemon request)
      (fun result after => Serving upkeep result.2 (recordAdded daemon request world after added) after)
      (fun after => Resting upkeep (recordAdded daemon request world after added) after) world := by
  have unchanged : ∀ name, Serving upkeep daemon
      (Function.update added name (added name ++ addedBy daemon name world world)) world := by
    intro name
    rwa [addedBy_self, update_append_nil]
  cases request with
  | create request =>
    have creates := wp_handleCreate serving allowed
    unfold Config.metaPathOf at creates
    have root : daemon.config.metaRoot = roots.metaRoot := by rw [serving.config]; rfl
    rw [← root] at creates
    exact creates
  | add name payload =>
    simp only [handle, handleAddCheck]
    split
    · exact (wp_pure _).mpr (unchanged name)
    · rename_i named
      refine wp_withFilter_adding serving (by simpa using named) ?_ ?_
      · exact fun filter seated => keeps_addDigestTo seated (fun world => .addDigest world _ _) _
      · intro filter history settled same live
        exact upkeep.add _ settled live (same.symm ▸ allowed)
  | madd name payloads =>
    simp only [handle, handleBatch]
    split
    · exact (wp_pure _).mpr (unchanged name)
    · rename_i named
      refine wp_withFilter_adding serving (by simpa using named) ?_ ?_
      · exact fun filter seated => keeps_addBatch seated (fun _ _ world => .addDigest world _ _) _
      · intro filter history settled same live
        exact upkeep.batch _ settled live (same.symm ▸ allowed)
  | check name payload =>
    simp only [handle, handleAddCheck]
    split
    · exact (wp_pure _).mpr serving
    · rename_i named
      refine wp_withFilter_checking serving (by simpa using named) fun filter => ?_
      refine (wp_checkDigest filter _ world).mono ?_ fun _ same => same
      rintro result after ⟨rfl, checks, same⟩
      exact ⟨rfl, checks, filter.batchCheckCalls, same⟩
  | mcheck name payloads =>
    simp only [handle, handleBatch]
    split
    · exact (wp_pure _).mpr serving
    · rename_i named
      refine wp_withFilter_checking serving (by simpa using named) fun filter => ?_
      refine (wp_checkBatch filter _ world).mono ?_ fun _ same => same
      rintro result after ⟨rfl, checks, same⟩
      exact ⟨rfl, filter.checkCalls, checks, same⟩
  | drop name => exact wp_handleDrop serving name

/-- One filter's turn in a sync -/
theorem Tended.syncTurn {front rest : List Filter} {filter : Filter}
    (tended : Tended upkeep mode (front ++ filter :: rest) added world)
    (ready : filter.logDirty = true → upkeep.ready filter.name world) (now : Nat) (force : Bool) :
    wp (syncFilterLog filter now force)
      (fun later after => Tended upkeep mode ((front ++ [later]) ++ rest) added after ∧
        Within filter.name world after)
      (fun after => Resting upkeep added after) world := by
  have found : (front ++ filter :: rest)[front.length]? = some filter := by simp
  have member := List.mem_of_getElem? found
  have settled := tended.settled filter member
  have syncs := wp_within filter.name (keeps_syncFilterLog settled.seated now force)
    (upkeep.sync now force settled (tended.live filter member) ready)
  refine syncs.mono ?_ ?_
  · rintro later after ⟨live, follows, within⟩
    have replaced := tended.replace found within follows (fun _ _ => rfl) live
    have split : (front ++ filter :: rest).set front.length later = (front ++ [later]) ++ rest := by
      simp
    rw [split] at replaced
    exact ⟨replaced, within⟩
  · rintro after ⟨disk, within⟩
    exact tended.crash.within within (fun _ _ => rfl) disk

theorem wp_syncFilters (now : Nat) (force : Bool) (rest : List Filter) :
    ∀ (front : List Filter) (world : World), Tended upkeep mode (front ++ rest) added world →
      (∀ filter ∈ rest, filter.logDirty = true → upkeep.ready filter.name world) →
      wp (syncFilters now force rest)
        (fun later after => Tended upkeep mode (front ++ later) added after ∧
          Grown world.maps after.maps)
        (fun after => Resting upkeep added after) world := by
  induction rest with
  | nil =>
    intro front world tended _
    exact (wp_pure _).mpr ⟨tended, .refl _⟩
  | cons filter rest ih =>
    intro front world tended ready
    have turn := tended.syncTurn (ready filter List.mem_cons_self) now force
    refine wp_bind (turn.mono ?_ fun _ held => held)
    rintro later after ⟨replaced, within⟩
    have distinct : ∀ other ∈ rest, other.name ≠ filter.name := by
      have unique := tended.unique
      rw [List.map_append, List.nodup_append, List.map_cons, List.nodup_cons] at unique
      intro other inside same
      exact unique.2.1.1 (List.mem_map.mpr ⟨other, inside, same⟩)
    have stillReady : ∀ other ∈ rest, other.logDirty = true → upkeep.ready other.name after :=
      fun other inside dirty => upkeep.ready_apart (within.apart (distinct other inside))
        (ready other (List.mem_cons_of_mem _ inside) dirty)
    refine wp_bind ((ih (front ++ [later]) after replaced stillReady).mono ?_ fun _ held => held)
    rintro more last ⟨held, grown⟩
    refine (wp_pure _).mpr ⟨?_, within.maps.trans grown⟩
    simpa using held

theorem wp_syncDirtyLogs (serving : Serving upkeep daemon added world)
    (ready : ∀ filter ∈ daemon.set.items, filter.logDirty = true →
      upkeep.ready filter.name world) (now : Nat) (force : Bool) :
    wp (syncDirtyLogs daemon.set now force)
      (fun set after => Serving upkeep { daemon with set } added after)
      (fun after => Resting upkeep added after) world := by
  refine wp_bind ((wp_syncFilters now force daemon.set.items [] world serving.tended ready).mono ?_
    fun _ held => held)
  rintro items after ⟨tended, grown⟩
  exact (wp_pure _).mpr ⟨serving.config, fun pooled pool => (serving.pool pooled pool).grown grown,
    tended⟩

/-- Freeing the set flushes every log once more. -/
theorem wp_freeFilters (items : List Filter) :
    ∀ world : World, Resting upkeep added world → (∀ filter ∈ items, Seated roots filter) →
      wp (freeFilters items) (fun _ after => Resting upkeep added after)
        (fun after => Resting upkeep added after) world := by
  induction items with
  | nil => exact fun world resting _ => (wp_pure _).mpr resting
  | cons filter rest ih =>
    intro world resting seated
    have own := seated filter List.mem_cons_self
    have valid := own.placed.valid
    have flushes : wp (logBufferFlush filter.logFd filter.logBuf true)
        (fun _ after => upkeep.disk filter.name (added filter.name) after)
        (fun after => upkeep.disk filter.name (added filter.name) after) world :=
      wp_logBufferFlush _ own.fd (resting filter.name valid)
        (fun _ chunk held => own.placed.log ▸ upkeep.appended chunk valid held)
        (fun _ held => own.placed.log ▸ upkeep.synced valid held) _ _
    refine wp_bind ((wp_within filter.name (keeps_logBufferFlush own _ _) flushes).mono ?_ ?_)
    · rintro result after ⟨disk, _, within⟩
      exact ih after (resting.within within (fun _ _ => rfl) disk)
        fun other inside => seated other (List.mem_cons_of_mem _ inside)
    · rintro after ⟨disk, within⟩
      exact resting.within within (fun _ _ => rfl) disk

theorem wp_shutdown (serving : Serving upkeep daemon added world)
    (ready : ∀ filter ∈ daemon.set.items, filter.logDirty = true →
      upkeep.ready filter.name world) (now : Nat) :
    wp (shutdown daemon now) (fun _ after => Resting upkeep added after)
      (fun after => Resting upkeep added after) world := by
  refine wp_bind ((wp_syncDirtyLogs serving ready now true).mono ?_ fun _ held => held)
  intro set after synced
  exact wp_freeFilters set.items after synced.tended.crash
    fun filter member => (synced.tended.settled filter member).seated

end

end Bloomd
