import Bloomd.LoadSteps

/-! The loader on a machine without faults: what it finds for an accepted record, and
that it finishes the turn. -/

namespace Bloomd

open CrashLogic Prog

section

variable {world : World} {config : Config} {record placed : FilterMeta} {map : Nat}

theorem completes_bpfGetMapInfo : Completes (bpfGetMapInfo map)
    (fun result after => after = world ∧ ∀ info, result = .ok info ↔
      ∃ kernel, world.maps[map]? = some kernel ∧ kernel.info = info) world := by
  apply completes_bind
  apply completes_attempt
  cases found : world.maps[map]? with
  | none => exact completes_pure _ ⟨rfl, fun info => ⟨nofun, fun ⟨_, impossible, _⟩ => nomatch impossible⟩⟩
  | some kernel =>
    apply completes_pure
    refine ⟨rfl, fun info => ⟨fun same => ⟨kernel, rfl, Except.ok.inj same⟩, ?_⟩⟩
    rintro ⟨_, ⟨⟩, rfl⟩
    rfl

/-- Without faults a map passes the check if and only if it agrees. -/
theorem completes_validateOpenPinnedMap : Completes (validateOpenPinnedMap record map)
    (fun result after => after = world ∧ (result = .ok () ↔ Matched record.toMetaRecord map world)) world := by
  apply completes_bind
  apply completes_bpfGetMapInfo.mono
  rintro result after ⟨rfl, known⟩
  cases result with
  | error failure =>
    apply completes_pure
    refine ⟨rfl, nofun, ?_⟩
    rintro ⟨kernel, found, _⟩
    exact nomatch (known kernel.info).mpr ⟨kernel, found, rfl⟩
  | ok info =>
    obtain ⟨kernel, found, rfl⟩ := (known info).mp rfl
    simp only
    split
    · rename_i differs
      apply completes_pure
      refine ⟨rfl, nofun, ?_⟩
      rintro ⟨other, there, matching⟩
      obtain rfl := Option.some.inj (there.symm.trans found)
      rcases differs with wrong | wrong | wrong | wrong | wrong
      · exact absurd matching.type wrong
      · exact absurd matching.keySize wrong
      · exact absurd matching.valueSize wrong
      · exact absurd matching.maxEntries wrong
      · exact absurd matching.mapExtra wrong
    · rename_i agree
      simp only [not_or, not_ne_iff] at agree
      obtain ⟨type, keySize, valueSize, maxEntries, mapExtra⟩ := agree
      exact completes_pure _ ⟨rfl, fun _ => ⟨kernel, found, type, keySize, valueSize, maxEntries, mapExtra⟩,
        fun _ => rfl⟩

theorem completes_openLoadedLog (filter : Filter) :
    Completes (openLoadedLog filter) (fun result _ => result.1 = .ok ()) world := by
  unfold openLoadedLog
  split
  · have opens : Completes (logOpenAppend filter.metadata.logPath)
        (fun result _ => ∃ fd, result = .ok fd) world := by
      apply completes_attempt
      cases world.logAt filter.metadata.logPath with
      | none => exact ⟨_, rfl⟩
      | some log => exact ⟨_, rfl⟩
    apply completes_bind
    apply opens.mono
    rintro _ after ⟨fd, rfl⟩
    apply completes_bind
    exact completes_call fun answer _ => completes_pure _ rfl
  · exact completes_pure _ rfl

theorem completes_bpfUnpin (path : Bytes) : Completes (bpfUnpin path) (fun _ _ => True) world := by
  have unlinks : Completes (sysUnlinkPin path) (fun _ _ => True) world := completes_attempt trivial
  apply completes_bind
  apply completes_bind
  apply unlinks.mono
  intro result after _
  cases result with
  | ok done => exact completes_pure _ (completes_pure _ trivial)
  | error errno =>
    apply completes_pure
    split
    · exact completes_pure _ trivial
    · exact completes_pure _ trivial

theorem completes_cleanupEntry (unpinOnError : Bool) :
    Completes (cleanupEntry record unpinOnError) (fun _ _ => True) world := by
  unfold cleanupEntry
  split
  · apply completes_bind
    exact (completes_bpfUnpin _).mono fun _ _ _ => completes_pure _ trivial
  · exact completes_pure _ trivial

theorem matched_created (capacity : record.capacity < 2 ^ 32) (hashes : record.hashes ≤ 15)
    (valueSize : record.valueSize = digestSize) (maps : List KernelMap) (contents : List Digest) :
    MatchedIn record.toMetaRecord maps.length
      (maps ++ [⟨createdMapInfo record.capacity record.hashes, contents⟩]) :=
  ⟨⟨createdMapInfo record.capacity record.hashes, contents⟩, by simp,
    matching_created capacity hashes valueSize⟩

theorem completes_replayDigest (digest : Digest) (context : Except Failure Unit) :
    Completes (replayDigest map digest context)
      (fun result after => result = (true, .ok ()) ∧ after = world.addDigest map digest) world := by
  apply completes_bind
  apply completes_bind
  apply completes_attempt
  exact completes_pure _ (completes_pure _ ⟨rfl, rfl⟩)

/-- Without faults a rebuild replays every whole record of the log into a new map. -/
theorem completes_rebuildFromLog {log : LogFile} (assigned : assignFilterPaths config record = .ok placed)
    (capacity : placed.capacity ≠ 0 ∧ placed.capacity < 2 ^ 32) (hashes : placed.hashes ≤ 15)
    (present : world.logAt placed.logPath = some log) (free : world.pinAt placed.pinPath = none) :
    Completes (rebuildFromLog config record)
      (fun result after => result = .ok (placed, world.maps.length) ∧ after.maps = world.maps ++
        [⟨createdMapInfo placed.capacity placed.hashes, Framing.records digestSize log.data⟩]) world := by
  unfold rebuildFromLog
  rw [assigned]
  apply completes_bind
  apply (completes_bpfCreateMap capacity hashes).mono
  rintro _ _ ⟨rfl, rfl⟩
  let info := createdMapInfo placed.capacity placed.hashes
  let shows (seen : List Digest) (middle : World) : Prop :=
    middle.maps = world.maps ++ [⟨info, seen⟩] ∧ middle.pins = world.pins
  have replays : Completes (logReplay placed.logPath (replayDigest world.maps.length) (.ok ()))
      (fun result after => (∃ count, result = (.ok count, .ok ())) ∧ shows (Framing.records digestSize log.data) after)
      (world.addMap ⟨info, []⟩) := by
    refine completes_logReplayImpl log (fun seen context middle => context = .ok () ∧ shows seen middle ∧
      middle.logAt placed.logPath = some log) ?_ ⟨rfl, ⟨rfl, rfl⟩, present⟩ ?_ ?_ ?_
    · exact fun _ _ _ held => held.2.2
    · rintro seen digest later context middle _ ⟨_, ⟨maps, pins⟩, there⟩
      apply (completes_replayDigest digest context).mono
      rintro _ _ ⟨rfl, rfl⟩
      refine ⟨rfl, rfl, ⟨?_, pins⟩, there⟩
      rw [World.addDigest_maps, maps, modify_appended]
    · rintro context middle ⟨rfl, shown, _⟩
      exact ⟨⟨_, rfl⟩, shown⟩
    · rintro context middle _ ⟨rfl, shown, _⟩
      exact ⟨⟨_, rfl⟩, by simpa [shows] using shown⟩
  apply completes_bind
  apply replays.mono
  rintro _ after ⟨⟨count, rfl⟩, maps, pins⟩
  have open' : after.pinAt placed.pinPath = none := by
    unfold World.pinAt
    rw [pins]
    exact free
  apply completes_bind
  apply completes_bind
  apply completes_attempt
  rw [open']
  apply completes_pure
  apply completes_pure
  exact ⟨rfl, maps⟩

/-- Without its log a rebuild finds nothing, which is what makes metadata stale. -/
theorem completes_rebuildFromLog_missing (assigned : assignFilterPaths config record = .ok placed)
    (capacity : placed.capacity ≠ 0 ∧ placed.capacity < 2 ^ 32) (hashes : placed.hashes ≤ 15)
    (missing : world.logAt placed.logPath = none) :
    Completes (rebuildFromLog config record)
      (fun result _ => ∃ failure, result = .error failure ∧ failure.errno = .enoent) world := by
  unfold rebuildFromLog
  rw [assigned]
  apply completes_bind
  apply (completes_bpfCreateMap capacity hashes).mono
  rintro _ _ ⟨rfl, rfl⟩
  have gone : (world.addMap ⟨createdMapInfo placed.capacity placed.hashes, []⟩).logAt placed.logPath = none := missing
  apply completes_bind
  apply completes_bind
  apply completes_attempt
  rw [gone]
  apply completes_pure
  exact completes_pure _ ⟨_, rfl, rfl⟩

/-- The end of a turn for the first filter of a set -/
theorem completes_admitLoaded {path : Bytes} {stats : Stats} {unpinOnError : Bool} :
    Completes (admitLoaded ⟨.init, stats⟩ path record map unpinOnError)
      (fun turn _ => turn.1 = .ok () ↔ Matched record.toMetaRecord map world) world := by
  apply completes_bind
  apply completes_validateOpenPinnedMap.mono
  rintro checked after ⟨rfl, agrees⟩
  cases checked with
  | error failure =>
    apply completes_bind
    apply (completes_cleanupEntry unpinOnError).mono
    intro _ last _
    exact completes_pure _ ⟨nofun, fun matched => nomatch agrees.mpr matched⟩
  | ok done =>
    have matched := agrees.mp rfl
    have unfound : (FilterSet.init.findN record.name).1 = none := rfl
    simp only [unfound, Option.isSome_none, Bool.false_eq_true, ↓reduceIte]
    apply completes_bind
    apply (completes_openLoadedLog _).mono
    rintro ⟨_, filter⟩ middle rfl
    apply completes_bind
    apply (completes_filterSetAdd _ filter).mono
    rintro _ last ⟨set, rfl, _⟩
    exact completes_pure _ ⟨fun _ => matched, fun _ => rfl⟩

theorem completes_openOrRebuild_pinned (there : world.pinAt record.pinPath = some map) :
    Completes (openOrRebuild config record)
      (fun opened after => opened = .map record map false ∧ after = world) world := by
  apply completes_bind
  apply completes_attempt
  rw [there]
  exact completes_pure _ ⟨rfl, rfl⟩

/-- A filter without data gets a new map. -/
theorem completes_openOrRebuild_empty (free : world.pinAt record.pinPath = none) (fresh : record.hasData = false)
    (capacity : record.capacity ≠ 0 ∧ record.capacity < 2 ^ 32) (hashes : record.hashes ≤ 15) :
    Completes (openOrRebuild config record) (fun opened after => opened = .map record world.maps.length false ∧
      after = world.addMap ⟨createdMapInfo record.capacity record.hashes, []⟩) world := by
  apply completes_bind
  apply completes_attempt
  rw [free]
  simp only [↓reduceIte, fresh, Bool.not_false]
  apply completes_bind
  apply (completes_bpfCreateMap capacity hashes).mono
  rintro _ _ ⟨rfl, rfl⟩
  exact completes_pure _ ⟨rfl, rfl⟩

theorem completes_openOrRebuild_unclean (free : world.pinAt record.pinPath = none) (data : record.hasData = true)
    (unclean : record.logClean = false) :
    Completes (openOrRebuild config record)
      (fun opened _ => ∃ failure, opened = .failed failure ∧ failure.errno = .euclean) world := by
  apply completes_bind
  apply completes_attempt
  rw [free]
  simp only [↓reduceIte, data, unclean, Bool.not_true, Bool.not_false, Bool.false_eq_true]
  exact completes_pure _ ⟨_, rfl, rfl⟩

/-- What a rebuild returns decides how a clean record without its pin goes on. -/
theorem completes_openOrRebuild_clean (free : world.pinAt record.pinPath = none) (data : record.hasData = true)
    (clean : record.logClean = true) {post : Opened → World → Prop}
    (rebuilds : Completes (rebuildFromLog config record) (fun result after => match result with
      | .ok (loaded, map) => post (.map loaded map true) after
      | .error failure => if failure.errno = .enoent then post .stale after else post (.failed failure) after) world) :
    Completes (openOrRebuild config record) post world := by
  apply completes_bind
  apply completes_attempt
  rw [free]
  simp only [↓reduceIte, data, clean, Bool.not_true, Bool.false_eq_true]
  apply completes_bind
  apply rebuilds.mono
  intro result after held
  cases result with
  | ok rebuilt => exact completes_pure _ held
  | error failure =>
    simp only at held ⊢
    split
    · rename_i missing
      rw [if_pos missing] at held
      exact completes_pure _ held
    · rename_i other
      rw [if_neg other] at held
      exact completes_pure _ held

/-- A capacity beyond 32 bits is refused before the kernel is asked. -/
theorem completes_bpfCreateMap_large (large : 2 ^ 32 ≤ record.capacity) :
    Completes (bpfCreateMap record.capacity record.hashes)
      (fun result _ => ∃ failure, result = .error failure ∧ failure.errno = .erange) world := by
  unfold bpfCreateMap
  rw [if_pos (Or.inr large)]
  exact completes_pure _ ⟨_, rfl, rfl⟩

end

end Bloomd
