import Bloomd.InspectSemantics
import Bloomd.LoadOrder

/-! What a disk means: the filters that a load finds on it. Each name is judged by its own
files alone, and a turn of the load loop changes the meaning of no name, whatever its calls
meet and wherever it is cut short. -/

namespace Bloomd

open CrashLogic Prog

/-- What is on disk for a name: no filter, one that cannot be loaded, or a filter -/
inductive Meaning where
  | absent
  | refused
  | filter (served : Served)

def Meaning.served : Meaning → List Served
  | .absent => []
  | .refused => []
  | .filter served => [served]

instance (record : MetaRecord) (info : MapInfo) : Decidable (Matching record info) :=
  decidable_of_iff (info.type = bloomFilterMapType ∧ info.keySize = 0 ∧ info.valueSize = record.valueSize ∧
      info.maxEntries = record.capacity ∧ info.mapExtra &&& 0x0f = record.hashes)
    ⟨fun ⟨type, keySize, valueSize, maxEntries, mapExtra⟩ => ⟨type, keySize, valueSize, maxEntries, mapExtra⟩,
      fun matching => ⟨matching.type, matching.keySize, matching.valueSize, matching.maxEntries, matching.mapExtra⟩⟩

/-- The digests that a replay of a log brings back -/
def World.replayable (world : World) (path : Bytes) : Option (List Digest) :=
  (world.logAt path).map fun log => Framing.records digestSize log.data

/-- The record in a metadata file that the reader accepts -/
def World.recordAt (world : World) (path : Bytes) : Option MetaRecord :=
  (world.fileAt path).join.bind MetaRecord.readBack

/-- A record as it is loaded with a map -/
def Config.serves (config : Config) (name : Bytes) (record : MetaRecord) (kernel : KernelMap) : Served :=
  ⟨config.loadedMeta name record, some kernel, record.hasData && !record.logClean⟩

/-- What an accepted record means with the map at its pin path and the digests in its log -/
def Config.meaningOf (config : Config) (name : Bytes) (record : MetaRecord) (pinned : Option KernelMap)
    (replayable : Option (List Digest)) : Meaning :=
  match pinned with
  | some kernel => if Matching record kernel.info then .filter (config.serves name record kernel) else .refused
  | none =>
    if 2 ^ 32 ≤ record.capacity then .refused
    else if !record.hasData then .filter (config.serves name record ⟨createdMapInfo record.capacity record.hashes, []⟩)
    else if !record.logClean ∨ pathMax ≤ (config.pinPathOf name).length then .refused
    else
      match replayable with
      | none => .absent
      | some digests => .filter (config.serves name record ⟨createdMapInfo record.capacity record.hashes, digests⟩)

/-- What the files of a name mean -/
def World.meaning (world : World) (config : Config) (name : Bytes) : Meaning :=
  if pathMax ≤ (config.metaPathOf name).length then .absent
  else
    match world.recordAt (config.metaPathOf name) with
    | none => .absent
    | some record =>
      if record.name ≠ name ∨ !pathUnderRoot record.pinPath config.pinRoot ∨
        !pathHasName record.pinPath name then .absent
      else if pathMax ≤ (config.logPathOf name).length then .refused
      else config.meaningOf name record (world.pinned (resolve record.pinPath))
        (world.replayable (config.logPathOf name))

/-- The metadata of a name were written for the pin root as it is spelled now. -/
def Homed (config : Config) (name : Bytes) (world : World) : Prop :=
  ∀ record, Accepted config name record world → record.pinPath = config.pinPathOf name

section Meaning

variable {config : Config} {name : Bytes} {record : MetaRecord} {world later : World}

theorem World.recordAt_accepted (accepted : Accepted config name record world) :
    world.recordAt (config.metaPathOf name) = some record := by
  obtain ⟨stored, present, decoded⟩ := accepted.decoded
  simp [World.recordAt, present, decoded]

theorem World.meaning_accepted (accepted : Accepted config name record world)
    (short : (config.logPathOf name).length < pathMax) : world.meaning config name =
      config.meaningOf name record (world.pinned (resolve record.pinPath))
        (world.replayable (config.logPathOf name)) := by
  have passes : ¬ (record.name ≠ name ∨ (!pathUnderRoot record.pinPath config.pinRoot) = true ∨
      (!pathHasName record.pinPath name) = true) := by
    rw [accepted.named, accepted.under, accepted.pinned]
    simp
  unfold World.meaning
  rw [if_neg (Nat.not_le.mpr accepted.fits), World.recordAt_accepted accepted]
  simp only
  rw [if_neg passes, if_neg (Nat.not_le.mpr short)]

theorem World.meaning_unplaced (accepted : Accepted config name record world)
    (long : pathMax ≤ (config.logPathOf name).length) : world.meaning config name = .refused := by
  have passes : ¬ (record.name ≠ name ∨ (!pathUnderRoot record.pinPath config.pinRoot) = true ∨
      (!pathHasName record.pinPath name) = true) := by
    rw [accepted.named, accepted.under, accepted.pinned]
    simp
  unfold World.meaning
  rw [if_neg (Nat.not_le.mpr accepted.fits), World.recordAt_accepted accepted]
  simp only
  rw [if_neg passes, if_pos long]

/-- Metadata that the loader does not accept stand for no filter. -/
theorem World.meaning_unaccepted (valid : nameIsValid name = true)
    (none : ∀ record, ¬ Accepted config name record world) : world.meaning config name = .absent := by
  unfold World.meaning
  split
  · rfl
  · rename_i fits
    cases read : world.recordAt (config.metaPathOf name) with
    | none => rfl
    | some record =>
      simp only
      split
      · rfl
      · rename_i passes
        obtain ⟨stored, present, decoded⟩ := Option.bind_eq_some_iff.mp read
        simp only [not_or, ne_eq, Decidable.not_not, Bool.not_eq_true', Bool.not_eq_false] at passes
        obtain ⟨named, under, pinned⟩ := passes
        exact absurd ⟨valid, Nat.not_le.mp fits, ⟨stored, Option.join_eq_some_iff.mp present, decoded⟩, named,
          under, pinned⟩ (none record)

/-- What a name means is decided by its file, the map at its pin path and its log. -/
theorem World.meaning_congr (valid : nameIsValid name = true)
    (file : later.fileAt (config.metaPathOf name) = world.fileAt (config.metaPathOf name))
    (pinned : ∀ record, Accepted config name record world →
      later.pinned (resolve record.pinPath) = world.pinned (resolve record.pinPath))
    (log : later.replayable (config.logPathOf name) = world.replayable (config.logPathOf name)) :
    later.meaning config name = world.meaning config name := by
  by_cases some : ∃ record, Accepted config name record world
  · obtain ⟨record, accepted⟩ := some
    have again := accepted.of_file file
    by_cases short : (config.logPathOf name).length < pathMax
    · rw [World.meaning_accepted accepted short, World.meaning_accepted again short, pinned record accepted, log]
    · rw [World.meaning_unplaced accepted (Nat.not_lt.mp short), World.meaning_unplaced again (Nat.not_lt.mp short)]
  · have none : ∀ record, ¬ Accepted config name record later :=
      fun record accepted => some ⟨record, accepted.of_file file.symm⟩
    rw [World.meaning_unaccepted valid fun record accepted => some ⟨record, accepted⟩,
      World.meaning_unaccepted valid none]

end Meaning

/-- A world in the course of a turn that has touched no metadata file and no pin. The log
may have lost a torn record. -/
structure Preparing (path : Bytes) (begun after : World) : Prop where
  files : after.files = begun.files
  pins : after.pins = begun.pins
  maps : begun.maps <+: after.maps
  log : after.replayable path = begun.replayable path

/-- A name means in one world what it means in another, where nothing was lost but
metadata that stand for no filter. -/
structure Steady (config : Config) (name : Bytes) (begun after : World) : Prop where
  widened : Widened begun after
  meaning : after.meaning config name = begun.meaning config name
  file : after.fileAt (config.metaPathOf name) = begun.fileAt (config.metaPathOf name) ∨
    after.fileAt (config.metaPathOf name) = none

section Turn

variable {config : Config} {name : Bytes} {record : MetaRecord} {begun middle after : World}

theorem Preparing.pinned {path : Bytes} (preparing : Preparing path begun after) (sound : begun.Sound) (loc : Loc) :
    after.pinned loc = begun.pinned loc :=
  pinned_widened sound (by rw [preparing.pins]) preparing.maps

theorem Preparing.sound {path : Bytes} (preparing : Preparing path begun after) (sound : begun.Sound) :
    after.Sound := by
  intro loc map there
  rw [preparing.pins] at there
  exact lt_of_lt_of_le (sound loc map there) preparing.maps.length_le

theorem Preparing.steady (preparing : Preparing (config.logPathOf name) begun after) (sound : begun.Sound)
    (valid : nameIsValid name = true) : Steady config name begun after where
  widened := ⟨preparing.maps, preparing.sound sound⟩
  meaning := by
    apply World.meaning_congr valid _ _ preparing.log
    · rw [World.fileAt, preparing.files]
      rfl
    · exact fun record _ => preparing.pinned sound _
  file := by
    rw [World.fileAt, preparing.files]
    exact Or.inl rfl

theorem Steady.refl (sound : begun.Sound) : Steady config name begun begun :=
  ⟨⟨List.prefix_refl _, sound⟩, rfl, Or.inl rfl⟩

/-- The map that a turn has in hand for a record, and whether the turn pinned it -/
inductive InHand (config : Config) (name : Bytes) (record : MetaRecord) (begun : World) :
    Nat → Bool → World → Prop where
  | pinned (map : Nat) (kernel : KernelMap) (there : begun.pins.lookup (resolve record.pinPath) = some map)
      (held : begun.maps[map]? = some kernel) : InHand config name record begun map false begun
  | fresh (free : begun.pinned (resolve record.pinPath) = none) (empty : record.hasData = false)
      (small : record.capacity < 2 ^ 32) :
      InHand config name record begun begun.maps.length false
        (begun.addMap ⟨createdMapInfo record.capacity record.hashes, []⟩)
  | rebuilt (digests : List Digest) (middle : World) (free : begun.pinned (resolve record.pinPath) = none)
      (data : record.hasData = true) (clean : record.logClean = true) (small : record.capacity < 2 ^ 32)
      (short : (config.pinPathOf name).length < pathMax)
      (logged : begun.replayable (config.logPathOf name) = some digests)
      (preparing : Preparing (config.logPathOf name) begun middle)
      (maps : middle.maps = begun.maps ++ [⟨createdMapInfo record.capacity record.hashes, digests⟩]) :
      InHand config name record begun begun.maps.length true (middle.setPin (config.pinPathOf name) begun.maps.length)

/-- What the search for a map comes to -/
inductive Finds (config : Config) (name : Bytes) (record : MetaRecord) (begun : World) : Opened → World → Prop where
  | failed (failure : Failure) (after : World) (steady : Steady config name begun after) :
      Finds config name record begun (.failed failure) after
  | stale (after : World) (steady : Steady config name begun after) (absent : begun.meaning config name = .absent) :
      Finds config name record begun .stale after
  | map (map : Nat) (unpinOnError : Bool) (after : World)
      (inHand : InHand config name record begun map unpinOnError after) :
      Finds config name record begun (.map (config.loadedMeta name record) map unpinOnError) after

theorem World.Sound.unpinned (sound : begun.Sound) {loc : Loc} (free : begun.pinned loc = none) :
    begun.pins.lookup loc = none := by
  cases there : begun.pins.lookup loc with
  | none => rfl
  | some map =>
    obtain ⟨kernel, _, pinned⟩ := sound.pinned there
    rw [free] at pinned
    cases pinned

theorem Preparing.addMap (path : Bytes) (world : World) (kernel : KernelMap) :
    Preparing path world (world.addMap kernel) :=
  ⟨rfl, rfl, List.prefix_append _ _, rfl⟩

/-- What an accepted record with data and without its pin means, when its log is clean -/
theorem meaning_rebuilt (accepted : Accepted config name record begun)
    (placed : (config.logPathOf name).length < pathMax) (free : begun.pinned (resolve record.pinPath) = none)
    (small : record.capacity < 2 ^ 32) (data : record.hasData = true) (clean : record.logClean = true)
    (short : (config.pinPathOf name).length < pathMax) {digests : List Digest}
    (logged : begun.replayable (config.logPathOf name) = some digests) : begun.meaning config name =
      .filter (config.serves name record ⟨createdMapInfo record.capacity record.hashes, digests⟩) := by
  rw [World.meaning_accepted accepted placed, free, logged]
  unfold Config.meaningOf
  simp only
  rw [if_neg (Nat.not_le.mpr small), if_neg (by simp [data]), if_neg (by simp [clean, short])]

theorem meaning_stale (accepted : Accepted config name record begun)
    (placed : (config.logPathOf name).length < pathMax) (free : begun.pinned (resolve record.pinPath) = none)
    (small : record.capacity < 2 ^ 32) (data : record.hasData = true) (clean : record.logClean = true)
    (short : (config.pinPathOf name).length < pathMax)
    (missing : begun.replayable (config.logPathOf name) = none) : begun.meaning config name = .absent := by
  rw [World.meaning_accepted accepted placed, free, missing]
  unfold Config.meaningOf
  simp only
  rw [if_neg (Nat.not_le.mpr small), if_neg (by simp [data]), if_neg (by simp [clean, short])]

/-- What an accepted record with a map at its pin path means -/
theorem meaning_pinned (accepted : Accepted config name record begun)
    (placed : (config.logPathOf name).length < pathMax) {kernel : KernelMap}
    (there : begun.pinned (resolve record.pinPath) = some kernel) (matching : Matching record kernel.info) :
    begun.meaning config name = .filter (config.serves name record kernel) := by
  rw [World.meaning_accepted accepted placed, there]
  unfold Config.meaningOf
  simp only
  rw [if_pos matching]

theorem meaning_fresh (accepted : Accepted config name record begun)
    (placed : (config.logPathOf name).length < pathMax) (free : begun.pinned (resolve record.pinPath) = none)
    (small : record.capacity < 2 ^ 32) (empty : record.hasData = false) : begun.meaning config name =
      .filter (config.serves name record ⟨createdMapInfo record.capacity record.hashes, []⟩) := by
  rw [World.meaning_accepted accepted placed, free]
  unfold Config.meaningOf
  simp only
  rw [if_neg (Nat.not_le.mpr small), if_pos (by simp [empty])]

section Accepting

variable (accepted : Accepted config name record begun) (placed : (config.logPathOf name).length < pathMax)
  (homed : record.pinPath = config.pinPathOf name) (sound : begun.Sound) {map : Nat} {unpinOnError : Bool}

include accepted placed homed sound

theorem InHand.steady (inHand : InHand config name record begun map unpinOnError after) :
    Steady config name begun after := by
  cases inHand with
  | pinned map kernel there held => exact .refl sound
  | fresh free empty small => exact (Preparing.addMap _ begun _).steady sound accepted.valid
  | rebuilt digests middle free data clean small short logged preparing maps =>
    have kernelThere : middle.maps[begun.maps.length]? =
        some ⟨createdMapInfo record.capacity record.hashes, digests⟩ := by
      simp [maps]
    have own : (middle.setPin (config.pinPathOf name) begun.maps.length).pinned (resolve record.pinPath) =
        some ⟨createdMapInfo record.capacity record.hashes, digests⟩ := by
      rw [homed, World.pinned, World.setPin_pins, AList.lookup_insert]
      exact kernelThere
    have file : (middle.setPin (config.pinPathOf name) begun.maps.length).fileAt (config.metaPathOf name) =
        begun.fileAt (config.metaPathOf name) := by
      rw [World.fileAt, World.setPin_files, preparing.files]
      rfl
    obtain ⟨_, hashes, valueSize⟩ := accepted.ranges
    refine ⟨⟨?_, (preparing.sound sound).setPin (by simp [maps])⟩, ?_, Or.inl file⟩
    · rw [World.setPin_maps]
      exact preparing.maps
    · rw [meaning_pinned (accepted.of_file file) placed own (matching_created small hashes valueSize),
        meaning_rebuilt accepted placed free small data clean short logged]

/-- Opening the log of a filter with data, which creates it where it is missing -/
theorem InHand.steady_opened (inHand : InHand config name record begun map unpinOnError after) :
    Steady config name begun (after.opened config name record) := by
  have steady := inHand.steady accepted placed homed sound
  cases data : record.hasData with
  | false =>
    rw [World.opened, data]
    exact steady
  | true =>
    rw [World.opened, data]
    simp only [↓reduceIte]
    cases inHand with
    | fresh free empty small =>
      rw [data] at empty
      cases empty
    | rebuilt digests middle free _ clean small short logged preparing maps =>
      have there : ∃ log, (middle.setPin (config.pinPathOf name) begun.maps.length).logAt (config.logPathOf name) =
          some log := by
        have log := preparing.log.trans logged
        obtain ⟨log, there, _⟩ := Option.map_eq_some_iff.mp log
        exact ⟨log, there⟩
      obtain ⟨log, there⟩ := there
      rw [World.openLog, there]
      exact steady
    | pinned map kernel there held =>
      have pinned : begun.pinned (resolve record.pinPath) = some kernel := by
        rw [World.pinned, there]
        exact held
      have file : (begun.openLog (config.logPathOf name)).fileAt (config.metaPathOf name) =
          begun.fileAt (config.metaPathOf name) := by
        rw [World.fileAt, openLog_files]
        rfl
      have again : (begun.openLog (config.logPathOf name)).pinned (resolve record.pinPath) = some kernel := by
        rw [World.pinned, openLog_pins, openLog_maps]
        exact pinned
      refine ⟨⟨?_, ?_⟩, ?_, Or.inl file⟩
      · simp only [openLog_maps, List.prefix_refl]
      · intro loc map there
        rw [openLog_pins] at there
        rw [openLog_maps]
        exact sound loc map there
      · rw [World.meaning_accepted (accepted.of_file file) placed, World.meaning_accepted accepted placed,
          again, pinned]
        rfl

omit accepted placed homed sound in
/-- The log that a map was rebuilt from is there. -/
theorem InHand.opened_rebuilt (inHand : InHand config name record begun map true after) :
    after.opened config name record = after := by
  cases inHand with
  | rebuilt digests middle free data clean small short logged preparing maps =>
    obtain ⟨log, there, _⟩ := Option.map_eq_some_iff.mp (preparing.log.trans logged)
    have present : (middle.setPin (config.pinPathOf name) begun.maps.length).logAt (config.logPathOf name) =
        some log := there
    rw [World.opened, data, if_pos rfl, World.openLog, present]

omit placed in
/-- Taking back the pin of a map that was rebuilt -/
theorem InHand.steady_unpinned (inHand : InHand config name record begun map true after) :
    Steady config name begun (after.dropPin (config.pinPathOf name)) := by
  cases inHand with
  | rebuilt digests middle free data clean small short logged preparing maps =>
    have unpinned : begun.pins.lookup (resolve (config.pinPathOf name)) = none := by
      rw [← homed]
      exact sound.unpinned free
    have pins : ∀ loc,
        ((middle.setPin (config.pinPathOf name) begun.maps.length).dropPin (config.pinPathOf name)).pins.lookup loc =
        begun.pins.lookup loc := by
      intro loc
      by_cases here : loc = resolve (config.pinPathOf name)
      · rw [here, World.dropPin_pins, AList.lookup_erase, unpinned]
      · rw [World.dropPin_pins, AList.lookup_erase_ne here, World.setPin_pins, AList.lookup_insert_ne here,
          preparing.pins]
    have file : ((middle.setPin (config.pinPathOf name) begun.maps.length).dropPin (config.pinPathOf name)).fileAt
        (config.metaPathOf name) = begun.fileAt (config.metaPathOf name) := by
      rw [World.fileAt, World.dropPin_files, World.setPin_files, preparing.files]
      rfl
    refine ⟨⟨preparing.maps, ?_⟩, ?_, Or.inl file⟩
    · intro loc map there
      rw [pins] at there
      exact lt_of_lt_of_le (sound loc map there) preparing.maps.length_le
    · exact World.meaning_congr accepted.valid file
        (fun record _ => pinned_widened sound (pins _) preparing.maps) preparing.log

omit homed sound in
/-- A map that passes the check is what the record means. -/
theorem InHand.meaning (inHand : InHand config name record begun map unpinOnError after)
    (matched : Matched record map after) : ∃ kernel, after.maps[map]? = some kernel ∧
      begun.meaning config name = .filter (config.serves name record kernel) := by
  obtain ⟨kernel, held, matching⟩ := matched
  refine ⟨kernel, held, ?_⟩
  cases inHand with
  | pinned map other there found =>
    have pinned : begun.pinned (resolve record.pinPath) = some kernel := by
      rw [World.pinned, there]
      exact held
    exact meaning_pinned accepted placed pinned matching
  | fresh free empty small =>
    obtain rfl : ⟨createdMapInfo record.capacity record.hashes, []⟩ = kernel := by simpa using held
    exact meaning_fresh accepted placed free small empty
  | rebuilt digests middle free data clean small short logged preparing maps =>
    obtain rfl : ⟨createdMapInfo record.capacity record.hashes, digests⟩ = kernel := by simpa [maps] using held
    exact meaning_rebuilt accepted placed free small data clean short logged

end Accepting

/-- What a rebuild comes to -/
inductive Rebuilds (config : Config) (name : Bytes) (record : MetaRecord) (begun : World) :
    Except Failure (FilterMeta × Nat) → World → Prop where
  | failed (failure : Failure) (after : World) (steady : Steady config name begun after)
      (missing : failure.errno = .enoent → begun.meaning config name = .absent) :
      Rebuilds config name record begun (.error failure) after
  | rebuilt (map : Nat) (after : World) (inHand : InHand config name record begun map true after) :
      Rebuilds config name record begun (.ok (config.loadedMeta name record, map)) after

theorem Replayed.preparing {log : LogFile} {info : MapInfo} (present : begun.logAt (config.logPathOf name) = some log)
    (replayed : Replayed (config.logPathOf name) log info begun after) :
    Preparing (config.logPathOf name) begun after ∧
      after.maps = begun.maps ++ [⟨info, Framing.records digestSize log.data⟩] := by
  cases replayed with
  | whole => exact ⟨.addMap _ _ _, rfl⟩
  | cut =>
    have there : (begun.addMap ⟨info, Framing.records digestSize log.data⟩).logAt (config.logPathOf name) =
        some log := present
    have trimmed : Trimmed log (log.truncate ((Framing.records digestSize log.data).length * digestSize)) := Or.inr rfl
    refine ⟨⟨?_, ?_, ?_, ?_⟩, ?_⟩
    · rw [World.changeLog_files]
      rfl
    · rw [World.changeLog_pins]
      rfl
    · rw [World.changeLog_maps]
      exact List.prefix_append _ _
    · rw [World.replayable, World.changeLog, there, World.replayable, present]
      simp [World.logAt, trimmed.records.1]
    · rw [World.changeLog_maps]
      rfl

theorem Rebuilding.preparing {log : LogFile} {info : MapInfo}
    (present : begun.logAt (config.logPathOf name) = some log)
    (rebuilding : Rebuilding (config.logPathOf name) log info begun after) :
    Preparing (config.logPathOf name) begun after := by
  cases rebuilding with
  | untouched => exact ⟨rfl, rfl, List.prefix_refl _, rfl⟩
  | replaying seen => exact .addMap _ _ _
  | replayed after replayed => exact (replayed.preparing present).1

section Opening

variable (accepted : Accepted config name record begun) (placed : (config.logPathOf name).length < pathMax)
  (homed : record.pinPath = config.pinPathOf name) (sound : begun.Sound)

include accepted placed homed sound

omit homed in
/-- A rebuild whose log is missing -/
theorem wp_rebuildFromLog_stale (free : begun.pinned (resolve record.pinPath) = none) (data : record.hasData = true)
    (clean : record.logClean = true) (missing : begun.logAt (config.logPathOf name) = none) :
    wp (rebuildFromLog config (config.loadedMeta name record)) (Rebuilds config name record begun)
      (Steady config name begun) begun := by
  have own : (config.loadedMeta name record).name = name := accepted.named
  have gone : begun.logAt (config.logPathOf (config.loadedMeta name record).name) = none := own ▸ missing
  have steady : ∀ after, Unlogged (createdMapInfo record.capacity record.hashes) begun after →
      Steady config name begun after := by
    rintro after (rfl | rfl)
    · exact .refl sound
    · exact (Preparing.addMap (config.logPathOf name) begun _).steady sound accepted.valid
  apply (wp_rebuildFromLog_missing gone).mono _ steady
  rintro result after ⟨unlogged, failure, rfl, inOrder⟩
  refine .failed failure after (steady after unlogged) fun same => ?_
  obtain ⟨fits, small⟩ := inOrder same
  rw [own] at fits
  have lost : begun.replayable (config.logPathOf name) = none := by
    rw [World.replayable, missing]
    rfl
  exact meaning_stale accepted placed free small data clean fits.pin lost

theorem wp_rebuildFromLog_rebuilds (free : begun.pinned (resolve record.pinPath) = none) (data : record.hasData = true)
    (clean : record.logClean = true) :
    wp (rebuildFromLog config (config.loadedMeta name record)) (Rebuilds config name record begun)
      (Steady config name begun) begun := by
  cases present : begun.logAt (config.logPathOf name) with
  | none => exact wp_rebuildFromLog_stale accepted placed sound free data clean present
  | some log =>
    have own : (config.loadedMeta name record).name = name := accepted.named
    have logged : begun.replayable (config.logPathOf name) = some (Framing.records digestSize log.data) := by
      rw [World.replayable, present]
      rfl
    have there : begun.logAt (config.logPathOf (config.loadedMeta name record).name) = some log := own ▸ present
    have spec := wp_rebuildFromLog there
    rw [own] at spec
    apply spec.mono
    · intro result after outcome
      cases outcome with
      | failed failure other after rebuilding =>
        rw [own] at rebuilding
        have steady := (rebuilding.preparing present).steady sound accepted.valid
        exact .failed failure after steady fun missing => absurd missing other
      | rebuilt fits small _ after replayed =>
        rw [own] at fits replayed ⊢
        obtain ⟨preparing, maps⟩ := replayed.preparing present
        have inHand := InHand.rebuilt _ after free data clean small fits.pin logged preparing maps
        have placedAlready : { record with name := name, pinPath := config.pinPathOf name } = record := by
          rw [← homed, ← accepted.named]
        have same : ({ config.loadedMeta name record with
            name := name, pinPath := config.pinPathOf name
            metaPath := config.metaPathOf name, logPath := config.logPathOf name } : FilterMeta) =
            config.loadedMeta name record := congrArg (config.loadedMeta name) placedAlready
        have rebuilt := Rebuilds.rebuilt _ _ inHand
        rwa [← same] at rebuilt
    · exact fun after rebuilding => (rebuilding.preparing present).steady sound accepted.valid

/-- The search for the map of an accepted record -/
theorem wp_openOrRebuild_finds : wp (openOrRebuild config (config.loadedMeta name record))
    (Finds config name record begun) (Steady config name begun) begun := by
  have unmoved : Steady config name begun begun := .refl sound
  apply wp_bind
  apply wp_attempt unmoved
  · intro errno transient
    simp only [transient.ne_enoent, ↓reduceIte]
    exact (wp_pure _).mpr (.failed _ _ unmoved)
  · cases there : begun.pinAt (config.loadedMeta name record).pinPath with
    | some map =>
      obtain ⟨kernel, held, _⟩ := sound.pinned there
      exact (wp_pure _).mpr (.map map false _ (.pinned map kernel there held))
    | none =>
      have free : begun.pinned (resolve record.pinPath) = none := by
        rw [World.pinned, show begun.pins.lookup (resolve record.pinPath) = none from there]
        rfl
      simp only [↓reduceIte]
      split
      · rename_i empty
        have empty : record.hasData = false := by simpa [Config.loadedMeta] using empty
        apply wp_bind
        apply (wp_bpfCreateMap record.capacity record.hashes begun).mono _ fun after reached => reached ▸ unmoved
        intro created after outcome
        cases outcome with
        | made small => exact (wp_pure _).mpr (.map _ false _ (.fresh free empty small))
        | refused failure other => exact (wp_pure _).mpr (.failed failure _ unmoved)
      · rename_i data
        have data : record.hasData = true := by simpa [Config.loadedMeta] using data
        split
        · exact (wp_pure _).mpr (.failed _ _ unmoved)
        · rename_i clean
          have clean : record.logClean = true := by simpa [Config.loadedMeta] using clean
          apply wp_bind
          apply (wp_rebuildFromLog_rebuilds accepted placed homed sound free data clean).mono _ fun _ steady => steady
          intro result after outcome
          cases outcome with
          | rebuilt map after inHand => exact (wp_pure _).mpr (.map map true _ inHand)
          | failed failure after steady missing =>
            simp only
            split
            · rename_i none
              exact (wp_pure _).mpr (.stale _ steady (missing none))
            · exact (wp_pure _).mpr (.failed _ _ steady)

end Opening

end Turn

end Bloomd
