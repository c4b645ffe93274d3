import Bloomd.RestartMeaning

/-! A DROP that is cut short. The pin goes first, then the metadata, then the log; what the
next startup finds in between decides whether the DROP is atomic. -/

namespace Bloomd

open CrashLogic Prog

/-- A filter in memory whose metadata file, pin and map agree with it -/
structure Holding (config : Config) (filter : Filter) (world : World) : Prop where
  accepted : Accepted config filter.name filter.metadata.toMetaRecord world
  seated : Seated config filter
  homed : filter.metadata.pinPath = config.pinPathOf filter.name
  fits : Fits config filter.name
  capacity : filter.metadata.capacity < 2 ^ 32
  matched : Matched filter.metadata.toMetaRecord filter.mapFd world
  pin : ∀ map, world.pinAt filter.metadata.pinPath = some map → map = filter.mapFd
  empty : filter.metadata.hasData = false → world.contents filter.mapFd = []

/-- What a DROP leaves of a filter: nothing to load, or its file and its log, with the pin
as it was, taken away or set again -/
inductive Leftover (config : Config) (filter : Filter) (begun after : World) : Prop where
  | gone (file : after.fileAt (config.metaPathOf filter.name) = none)
  | there (file : after.fileAt (config.metaPathOf filter.name) = begun.fileAt (config.metaPathOf filter.name))
      (log : after.logAt (config.logPathOf filter.name) = begun.logAt (config.logPathOf filter.name))
      (pin : after.pinAt filter.metadata.pinPath = begun.pinAt filter.metadata.pinPath ∨
        after.pinAt filter.metadata.pinPath = some filter.mapFd ∨
        filter.metadata.hasData = true ∧ after.pinAt filter.metadata.pinPath = none)

/-- A world in the course of a DROP -/
structure Dropping (config : Config) (filter : Filter) (begun after : World) : Prop where
  maps : after.maps = begun.maps
  sound : after.Sound
  leftover : Leftover config filter begun after

section Drop

variable {config : Config} {filter : Filter} {begun world after : World} {daemon : Daemon}

theorem Dropping.refl (sound : begun.Sound) : Dropping config filter begun begun :=
  ⟨rfl, sound, .there rfl rfl (Or.inl rfl)⟩

theorem Dropping.gone (dropping : Dropping config filter begun world) (pins : after.pins = world.pins)
    (maps : after.maps = world.maps) (file : after.fileAt (config.metaPathOf filter.name) = none) :
    Dropping config filter begun after := by
  refine ⟨maps.trans dropping.maps, ?_, .gone file⟩
  intro loc map there
  rw [pins] at there
  rw [maps]
  exact dropping.sound loc map there

theorem Dropping.unpinned (sound : begun.Sound) (data : filter.metadata.hasData = true) :
    Dropping config filter begun (begun.dropPin filter.metadata.pinPath) := by
  refine ⟨rfl, sound.dropPin, .there rfl rfl (Or.inr (Or.inr ⟨data, ?_⟩))⟩
  rw [World.pinAt, World.dropPin_pins, AList.lookup_erase]

theorem Dropping.pinned (dropping : Dropping config filter begun world) (bound : filter.mapFd < begun.maps.length) :
    Dropping config filter begun (world.setPin filter.metadata.pinPath filter.mapFd) := by
  have sound : (world.setPin filter.metadata.pinPath filter.mapFd).Sound :=
    dropping.sound.setPin (by rw [dropping.maps]; exact bound)
  refine ⟨dropping.maps, sound, ?_⟩
  rcases dropping.leftover with file | ⟨file, log, _⟩
  · exact .gone file
  · refine .there file log (Or.inr (Or.inl ?_))
    rw [World.pinAt, World.setPin_pins, AList.lookup_insert]

theorem wp_dropMetadata_dropping (seated : Seated config filter) (bound : filter.mapFd < begun.maps.length)
    (dropping : Dropping config filter begun world) :
    wp (dropMetadata filter)
      (fun result last => Dropping config filter begun last ∧
        (∀ done, result = .ok done → last.fileAt (config.metaPathOf filter.name) = none))
      (Dropping config filter begun) world := by
  have failing : ∀ (reply : Reply) (last : World), Dropping config filter begun last →
      Dropping config filter begun last ∧ (∀ done, (.error reply : Except Reply Unit) = .ok done →
        last.fileAt (config.metaPathOf filter.name) = none) := by
    intro reply last safe
    refine ⟨safe, ?_⟩
    intro done impossible
    cases impossible
  unfold dropMetadata
  rw [seated.placed.file]
  apply wp_bind
  apply wp_metaDelete.mono _ fun _ same => same ▸ dropping
  intro result after held
  cases result with
  | error errno =>
    obtain rfl := held
    simp only
    split
    · apply wp_bind
      apply (wp_bpfPinMap filter.mapFd dropping fun _ => dropping.pinned bound).mono _ fun _ safe => safe
      exact fun _ last safe => (wp_pure _).mpr (failing _ last safe)
    · exact (wp_pure _).mpr (failing _ _ dropping)
  | ok done =>
    obtain ⟨gone, moved⟩ := held
    have later : Dropping config filter begun after := by
      rcases moved with rfl | rfl
      · exact dropping
      · exact dropping.gone rfl rfl gone
    simp only
    split
    · have deletes : wp (logDelete filter.metadata.logPath)
          (fun _ last => Dropping config filter begun last ∧ last.fileAt (config.metaPathOf filter.name) = none)
          (fun last => Dropping config filter begun last ∧ last.fileAt (config.metaPathOf filter.name) = none) after :=
        wp_logDelete ⟨later, gone⟩ ⟨later.gone rfl rfl gone, gone⟩
      apply wp_bind
      apply deletes.mono _ fun _ safe => safe.1
      exact fun _ last safe => (wp_pure _).mpr ⟨safe.1, fun _ _ => safe.2⟩
    · exact (wp_pure _).mpr ⟨later, fun _ _ => gone⟩

theorem wp_dropFiles_dropping (seated : Seated config filter) (bound : filter.mapFd < begun.maps.length)
    (sound : begun.Sound) :
    wp (dropFiles filter)
      (fun result last => Dropping config filter begun last ∧
        (∀ done, result = .ok done → last.fileAt (config.metaPathOf filter.name) = none))
      (Dropping config filter begun) begun := by
  have start : Dropping config filter begun begun := .refl sound
  unfold dropFiles
  split
  · rename_i data
    apply wp_bind
    apply (wp_bpfUnpin start (.unpinned sound data)).mono _ fun _ safe => safe
    intro result after dropping
    cases result with
    | ok done => exact wp_dropMetadata_dropping seated bound dropping
    | error failure =>
      refine (wp_pure _).mpr ⟨dropping, ?_⟩
      intro done impossible
      cases impossible
  · exact wp_dropMetadata_dropping seated bound start

/-- What every DROP leaves, also where it is cut short -/
theorem wp_handleDrop_dropping {added : Bytes → List Digest} (serving : Serving (anyUpkeep config) daemon added begun)
    (member : filter ∈ daemon.set.items) (sound : begun.Sound) :
    wp (handleDrop daemon filter.name)
      (fun _ after => Dropping config filter begun after ∧ Within filter.name begun after)
      (fun after => Dropping config filter begun after ∧ Within filter.name begun after) begun := by
  have settled := serving.tended.settled filter member
  have seated := settled.seated
  obtain ⟨index, found⟩ := List.mem_iff_getElem?.mp member
  unfold handleDrop
  simp only [seated.placed.valid, Bool.not_true, Bool.false_eq_true, ↓reduceIte]
  cases located : (daemon.set.findN filter.name).1 with
  | none => exact (wp_pure _).mpr ⟨.refl sound, refl begun⟩
  | some position =>
    obtain ⟨other, there, same⟩ := FilterSet.findN_name serving.named seated.placed.valid located
    obtain rfl := index_of_name serving.tended.unique there found same
    obtain rfl := Option.some.inj (there.symm.trans found)
    simp only [FilterSet.findN_items, found]
    apply wp_bind
    apply (wp_within other.name (keeps_dropFiles seated)
      (wp_dropFiles_dropping seated settled.matched.bound sound)).mono _ fun _ safe => safe
    rintro result middle ⟨⟨dropping, gone⟩, _, within⟩
    cases result with
    | error reply => exact (wp_pure _).mpr ⟨dropping, within⟩
    | ok done =>
      have changed : ∀ (before : World) (change : LogFile → LogFile),
          Dropping config other begun before ∧ before.fileAt (config.metaPathOf other.name) = none →
          Dropping config other begun (before.changeLog (config.logPathOf other.name) change) ∧
            (before.changeLog (config.logPathOf other.name) change).fileAt (config.metaPathOf other.name) = none := by
        rintro before change ⟨safe, absent⟩
        have still : (before.changeLog (config.logPathOf other.name) change).fileAt (config.metaPathOf other.name) =
            none := by
          rw [World.fileAt, World.changeLog_files]
          exact absent
        exact ⟨safe.gone (World.changeLog_pins before) (World.changeLog_maps before) still, still⟩
      have flushes := @wp_logBufferFlush middle (config.logPathOf other.name)
        (fun last => Dropping config other begun last ∧ last.fileAt (config.metaPathOf other.name) = none) other.logFd
        (seated.placed.log ▸ seated.fd) ⟨dropping, gone done rfl⟩ (fun before _ safe => changed before _ safe)
        (fun before safe => changed before _ safe) other.logBuf false
      have looked := serving.looked other.name
      unfold removeDropped filterSetRemoveN
      rw [looked.found_index (by simpa using found)]
      simp only [FilterSet.findN_items, found]
      apply wp_bind
      apply wp_bind
      apply (wp_within other.name (keeps_logBufferFlush seated _ _) flushes).mono
      · rintro _ after ⟨safe, _, flushed⟩
        exact (wp_pure _).mpr ((wp_pure _).mpr ⟨safe.1, IsTrans.trans _ _ _ within flushed⟩)
      · rintro after ⟨safe, flushed⟩
        exact ⟨safe.1, IsTrans.trans _ _ _ within flushed⟩

theorem Dropping.recoverable (dropping : Dropping config filter begun after) (within : Within filter.name begun after)
    (recoverable : Recoverable config begun) : Recoverable config after := by
  refine ⟨?_, dropping.sound⟩
  intro name valid record accepted
  by_cases own : name = filter.name
  · subst own
    rcases dropping.leftover with file | ⟨file, _, _⟩
    · obtain ⟨stored, present, _⟩ := accepted.decoded
      rw [file] at present
      cases present
    · exact recoverable.homed filter.name valid record (accepted.of_file file.symm)
  · have same : after.fileAt (config.metaPathOf name) = begun.fileAt (config.metaPathOf name) :=
      (within.apart own).fileAt valid config
    exact recoverable.homed name valid record (accepted.of_file same.symm)

theorem Dropping.others (dropping : Dropping config filter begun after) (within : Within filter.name begun after)
    (sound : begun.Sound) {other : Bytes} (valid : nameIsValid other = true) (different : other ≠ filter.name) :
    after.meaning config other = begun.meaning config other := by
  have widened : Widened begun after := ⟨by simp only [dropping.maps, List.prefix_refl], dropping.sound⟩
  exact (Steady.of_within within different valid sound widened).meaning

/-- A name that stands for no filter, or for one with all these digests -/
def Meaning.Holds (digests : List Digest) : Meaning → Prop
  | .absent => True
  | .refused => False
  | .filter served => ∃ kernel, served.map = some kernel ∧ digests ⊆ kernel.contents

/-- The log of a filter with data is clean and makes up for its map. -/
def Replaces (config : Config) (filter : Filter) (world : World) : Prop :=
  filter.metadata.hasData = true → filter.metadata.logClean = true ∧
    ∀ digests, world.replayable (config.logPathOf filter.name) = some digests → world.contents filter.mapFd ⊆ digests

section Holding

variable (holding : Holding config filter begun)

include holding

theorem Holding.meaning (file : after.fileAt (config.metaPathOf filter.name) =
      begun.fileAt (config.metaPathOf filter.name))
    (log : after.logAt (config.logPathOf filter.name) = begun.logAt (config.logPathOf filter.name)) :
    after.meaning config filter.name = config.meaningOf filter.name filter.metadata.toMetaRecord
      (after.pinned (resolve filter.metadata.pinPath)) (begun.replayable (config.logPathOf filter.name)) := by
  rw [World.meaning_accepted (holding.accepted.of_file file) holding.fits.log, World.replayable, log]
  rfl

theorem Holding.pinned (maps : after.maps = begun.maps)
    (pin : after.pinAt filter.metadata.pinPath = some filter.mapFd) :
    ∃ kernel, after.pinned (resolve filter.metadata.pinPath) = some kernel ∧
      Matching filter.metadata.toMetaRecord kernel.info ∧ kernel.contents = begun.contents filter.mapFd := by
  obtain ⟨kernel, there, matching⟩ := holding.matched
  refine ⟨kernel, ?_, matching, ?_⟩
  · rw [World.pinned, show after.pins.lookup (resolve filter.metadata.pinPath) = some filter.mapFd from pin,
      Option.bind_some, maps]
    exact there
  · rw [World.contents, there]
    rfl

/-- With its own map behind its pin, the filter is loaded as it was held. -/
theorem Holding.holds_pinned (file : after.fileAt (config.metaPathOf filter.name) =
      begun.fileAt (config.metaPathOf filter.name))
    (log : after.logAt (config.logPathOf filter.name) = begun.logAt (config.logPathOf filter.name))
    (maps : after.maps = begun.maps) (pin : after.pinAt filter.metadata.pinPath = some filter.mapFd) :
    (after.meaning config filter.name).Holds (begun.contents filter.mapFd) := by
  obtain ⟨kernel, pinned, matching, contents⟩ := holding.pinned maps pin
  rw [holding.meaning file log, pinned]
  unfold Config.meaningOf
  simp only
  rw [if_pos matching]
  exact ⟨kernel, rfl, by rw [contents]; exact List.Subset.refl _⟩

/-- Without its pin, the filter is what its log makes of it. -/
theorem Holding.holds_unpinned (data : filter.metadata.hasData = true)
    (file : after.fileAt (config.metaPathOf filter.name) = begun.fileAt (config.metaPathOf filter.name))
    (log : after.logAt (config.logPathOf filter.name) = begun.logAt (config.logPathOf filter.name))
    (pin : after.pinAt filter.metadata.pinPath = none) :
    (after.meaning config filter.name).Holds (begun.contents filter.mapFd) ↔ Replaces config filter begun := by
  have unpinned : after.pinned (resolve filter.metadata.pinPath) = none := by
    rw [World.pinned, show after.pins.lookup (resolve filter.metadata.pinPath) = none from pin]
    rfl
  rw [holding.meaning file log, unpinned]
  unfold Config.meaningOf Replaces
  simp only [Nat.not_le.mpr holding.capacity, ↓reduceIte, data, Bool.not_true, Bool.false_eq_true, forall_const]
  cases clean : filter.metadata.logClean with
  | false => simp [Meaning.Holds]
  | true =>
    simp only [Bool.not_true, Bool.false_eq_true, Nat.not_le.mpr holding.fits.pin, or_self, ↓reduceIte, true_and]
    cases replayed : begun.replayable (config.logPathOf filter.name) with
    | none => simp [Meaning.Holds]
    | some digests => simp [Meaning.Holds, Config.serves]

/-- Whatever a DROP leaves is safe if the log makes up for the map. -/
theorem Holding.holds_dropping (dropping : Dropping config filter begun after)
    (replaces : Replaces config filter begun) :
    (after.meaning config filter.name).Holds (begun.contents filter.mapFd) := by
  rcases dropping.leftover with file | ⟨file, log, pin⟩
  · rw [World.meaning_unaccepted holding.accepted.valid]
    · trivial
    · intro record accepted
      obtain ⟨stored, present, _⟩ := accepted.decoded
      rw [file] at present
      cases present
  · cases pinned : after.pinAt filter.metadata.pinPath with
    | some map =>
      have own : map = filter.mapFd := by
        rw [pinned] at pin
        rcases pin with same | set | ⟨_, none⟩
        · exact holding.pin map same.symm
        · exact Option.some.inj set
        · cases none
      subst own
      exact holding.holds_pinned file log dropping.maps pinned
    | none =>
      cases data : filter.metadata.hasData with
      | true => exact (holding.holds_unpinned data file log pinned).mpr replaces
      | false =>
        have unpinned : after.pinned (resolve filter.metadata.pinPath) = none := by
          rw [World.pinned, show after.pins.lookup (resolve filter.metadata.pinPath) = none from pinned]
          rfl
        rw [holding.meaning file log, unpinned, holding.empty data]
        unfold Config.meaningOf
        simp only [Nat.not_le.mpr holding.capacity, ↓reduceIte, data, Bool.not_false]
        exact ⟨_, rfl, List.nil_subset _⟩

end Holding

theorem Meaning.holds_served {digests : List Digest} {meaning : Meaning} (holds : meaning.Holds digests) :
    ∀ served ∈ meaning.served, ∃ kernel, served.map = some kernel ∧ digests ⊆ kernel.contents := by
  intro served member
  cases meaning with
  | absent => cases member
  | refused => cases member
  | filter other =>
    obtain rfl := List.mem_singleton.mp member
    exact holds

/-- The next startup without faults comes up. It serves the other filters as if there had
been no DROP, and the dropped one not at all or with every digest that it held. -/
def DropAtomic (config : Config) (filter : Filter) (begun after : World) : Prop :=
  ∀ env mode pid, env.SeesAll config →
    Completes (startup env (config.withMode mode)) (fun result last => ∃ daemon, result = .ok daemon ∧
      (∀ other, nameIsValid other = true → other ≠ filter.name →
        last.served daemon.set.items other = (begun.meaning config other).served) ∧
      ∀ served ∈ last.served daemon.set.items filter.name, ∃ kernel, served.map = some kernel ∧
        begun.contents filter.mapFd ⊆ kernel.contents) { after with pid }

theorem dropAtomic_of_holds (recoverable : Recoverable config after) (rooted : config.metaRoot ≠ [])
    (others : ∀ other, nameIsValid other = true → other ≠ filter.name →
      after.meaning config other = begun.meaning config other ∧ begun.meaning config other ≠ .refused)
    (holds : (after.meaning config filter.name).Holds (begun.contents filter.mapFd))
    (valid : nameIsValid filter.name = true) :
    DropAtomic config filter begun after := by
  intro env mode pid sees
  obtain ⟨serves, completes⟩ := startup_serves_meaning (recoverable.legible sees mode pid) rooted
  apply (completes.covered serves).mono
  rintro result last ⟨comesUp, _, served⟩
  have loadable : ∀ name, nameIsValid name = true → World.meaning { after with pid }
      (config.withMode mode) name ≠ .refused := by
    intro name known
    by_cases own : name = filter.name
    · subst own
      intro refused
      have refused : after.meaning config filter.name = .refused := refused
      rw [refused] at holds
      exact holds
    · obtain ⟨same, fine⟩ := others name known own
      exact same ▸ fine
  obtain ⟨daemon, rfl⟩ := comesUp.mpr loadable
  refine ⟨daemon, rfl, ?_, ?_⟩
  · intro other known different
    rw [← (others other known different).1]
    exact served daemon rfl other known
  · rw [served daemon rfl filter.name valid]
    exact Meaning.holds_served holds

/-- What a startup that comes up tells about the disk -/
theorem holds_of_dropAtomic (recoverable : Recoverable config after) (rooted : config.metaRoot ≠ [])
    (atomic : DropAtomic config filter begun after) (valid : nameIsValid filter.name = true) :
    (∀ name, nameIsValid name = true → after.meaning config name ≠ .refused) ∧
      (after.meaning config filter.name).Holds (begun.contents filter.mapFd) := by
  have sees : Env.plain.SeesAll config := ⟨rfl, fun _ _ => rfl⟩
  obtain ⟨serves, completes⟩ := startup_serves_meaning (recoverable.legible sees .always 0) rooted
  obtain ⟨_, _, _, ⟨⟨comesUp, _, served⟩, daemon, rfl, _, own⟩, _⟩ :=
    ((completes.covered serves).and (atomic .plain .always 0 sees)).run (fun _ => .ok) fun _ => trivial
  have loadable := comesUp.mp ⟨daemon, rfl⟩
  refine ⟨loadable, ?_⟩
  rw [served daemon rfl filter.name valid] at own
  have fine : after.meaning config filter.name ≠ .refused := loadable filter.name valid
  cases meaning : after.meaning config filter.name with
  | absent => trivial
  | refused => exact absurd meaning fine
  | filter seen =>
    apply own seen
    rw [show World.meaning { after with pid := 0 } (config.withMode .always) filter.name = .filter seen from meaning]
    exact List.mem_singleton_self seen

/-- A DROP that is cut short after its first call -/
theorem handleDrop_cut {added : Bytes → List Digest} (serving : Serving (anyUpkeep config) daemon added begun)
    (member : filter ∈ daemon.set.items) (data : filter.metadata.hasData = true) :
    (handleDrop daemon filter.name begun [.ok]).state = begun.dropPin filter.metadata.pinPath ∨
      begun.pinAt filter.metadata.pinPath = none ∧ (handleDrop daemon filter.name begun [.ok]).state = begun := by
  have valid := serving.named filter member
  obtain ⟨index, found⟩ := List.mem_iff_getElem?.mp member
  have located : (daemon.set.findN filter.name).1 = some index := by
    obtain ⟨position, there⟩ := Option.isSome_iff_exists.mp (FilterSet.findN_isSome serving.named valid member rfl)
    obtain ⟨other, known, same⟩ := FilterSet.findN_name serving.named valid there
    rw [there, index_of_name serving.tended.unique known found same]
  unfold handleDrop
  simp only [valid, Bool.not_true, Bool.false_eq_true, ↓reduceIte, located, FilterSet.findN_items, found,
    dropFiles, data,
    bpfUnpin, removePathIfExists, sysUnlinkPin, attempt, bind_assoc]
  cases pinned : begun.pinAt filter.metadata.pinPath with
  | none =>
    right
    refine ⟨rfl, ?_⟩
    simp only [bind_apply, call, Answer.refusal, pinned, pure_apply]
    cases begun.isPinDirectory filter.metadata.pinPath with
    | false => rfl
    | true => rfl
  | some map =>
    left
    simp only [bind_apply, call, Answer.refusal, pinned, pure_apply]
    rfl

/-- A DROP is crash-atomic for a filter if and only if the log of the filter, should it
have data, is clean and holds all of them, and no other filter keeps the daemon from
starting. Between the unpin and the removal of the metadata file the log is all there is. -/
theorem drop_crash_atomic_iff {added : Bytes → List Digest} (serving : Serving (anyUpkeep config) daemon added begun)
    (member : filter ∈ daemon.set.items) (holding : Holding config filter begun)
    (recoverable : Recoverable config begun)
    (rooted : config.metaRoot ≠ []) :
    (∀ answers, DropAtomic config filter begun (handleDrop daemon filter.name begun answers).state) ↔
      (∀ other, nameIsValid other = true → other ≠ filter.name → begun.meaning config other ≠ .refused) ∧
        Replaces config filter begun := by
  have valid := holding.accepted.valid
  have stops := fun answers => (wp_handleDrop_dropping serving member recoverable.sound).stops answers
  constructor
  · intro atomic
    constructor
    · intro other known different
      obtain ⟨dropping, within⟩ := stops []
      rw [← dropping.others within recoverable.sound known different]
      exact (holds_of_dropAtomic (dropping.recoverable within recoverable) rooted (atomic []) valid).1 other known
    · intro data
      obtain ⟨dropping, within⟩ := stops [.ok]
      have left := dropping.recoverable within recoverable
      have holds := (holds_of_dropAtomic left rooted (atomic [.ok]) valid).2
      rcases handleDrop_cut serving member data with cut | ⟨unpinned, cut⟩
      · rw [cut] at holds
        have unpinned : (begun.dropPin filter.metadata.pinPath).pinAt filter.metadata.pinPath = none := by
          rw [World.pinAt, World.dropPin_pins, AList.lookup_erase]
        exact (@Holding.holds_unpinned _ _ _
          (begun.dropPin filter.metadata.pinPath) holding data rfl rfl unpinned).mp holds data
      · rw [cut] at holds
        exact (holding.holds_unpinned data rfl rfl unpinned).mp holds data
  · rintro ⟨loadable, replaces⟩ answers
    obtain ⟨dropping, within⟩ := stops answers
    apply dropAtomic_of_holds (dropping.recoverable within recoverable) rooted _ _ valid
    · intro other known different
      exact ⟨dropping.others within recoverable.sound known different, loadable other known different⟩
    · exact holding.holds_dropping dropping replaces

end Drop

/-- A filter with one digest, in its map and in its log -/
def heldWorld (logClean : Bool) : World :=
  (((World.empty.setFile (bytes "/m/x.meta") (some (unpinnedRecord logClean))).setLog (bytes "/m/x.digests")
    ⟨List.replicate 16 7, []⟩).addMap ⟨createdMapInfo 100 3, [⟨List.replicate 16 7, rfl⟩]⟩).setPin (bytes "/p/x") 0

def heldFilter (logClean : Bool) : Filter := demoRoots.loaded demoName (unpinnedRecord logClean) 0 5

def heldDaemon (logClean : Bool) : Daemon := ⟨demoRoots, ⟨[heldFilter logClean], 8, none⟩, none, .zero⟩

theorem accepted_heldWorld (logClean : Bool) :
    Accepted demoRoots demoName (unpinnedRecord logClean) (heldWorld logClean) := by
  cases logClean with
  | false => exact ⟨by decide, by decide, ⟨unpinnedRecord false, by decide, by decide⟩, rfl, by decide, by decide⟩
  | true => exact ⟨by decide, by decide, ⟨unpinnedRecord true, by decide, by decide⟩, rfl, by decide, by decide⟩

theorem only_heldWorld {logClean : Bool} {name : Bytes} {record : MetaRecord}
    (accepted : Accepted demoRoots name record (heldWorld logClean)) : name = demoName := by
  obtain ⟨file, present⟩ := accepted.file
  have listed := mem_entriesIn_metaRoot (by decide) accepted.valid present
  rw [show entriesIn (heldWorld logClean).files (resolve demoRoots.metaRoot) = [metaLeaf demoName] by
    cases logClean <;> decide] at listed
  exact metaLeaf_injective (List.mem_singleton.mp listed)

theorem recoverable_heldWorld (logClean : Bool) : Recoverable demoRoots (heldWorld logClean) := by
  constructor
  · intro name _ record accepted
    obtain rfl := only_heldWorld accepted
    obtain rfl := accepted.unique (accepted_heldWorld logClean)
    cases logClean <;> decide
  · have sound : (World.empty.addMap ⟨createdMapInfo 100 3, [⟨List.replicate 16 7, rfl⟩]⟩).Sound := by
      intro loc map there
      cases there
    exact @World.Sound.setPin (bytes "/p/x")
      (World.empty.addMap ⟨createdMapInfo 100 3, [⟨List.replicate 16 7, rfl⟩]⟩) 0 sound (by decide)

theorem seated_heldFilter (logClean : Bool) : Seated demoRoots (heldFilter logClean) :=
  ⟨⟨(by decide : nameIsValid demoName = true), rfl, rfl, (by decide : (resolve (bytes "/p/x")).leaf = demoName)⟩,
    Or.inr rfl⟩

theorem matched_heldFilter (logClean : Bool) :
    Matched (heldFilter logClean).metadata.toMetaRecord (heldFilter logClean).mapFd (heldWorld logClean) :=
  ⟨⟨createdMapInfo 100 3, [⟨List.replicate 16 7, rfl⟩]⟩, rfl, rfl, rfl, rfl, rfl, rfl⟩

theorem holding_heldFilter (logClean : Bool) : Holding demoRoots (heldFilter logClean) (heldWorld logClean) where
  accepted := accepted_heldWorld logClean
  seated := seated_heldFilter logClean
  homed := (by decide : bytes "/p/x" = demoRoots.pinPathOf demoName)
  fits := (⟨by decide, by decide, by decide⟩ : Fits demoRoots demoName)
  capacity := (by decide : 100 < 2 ^ 32)
  matched := matched_heldFilter logClean
  pin := by
    intro map there
    exact (Option.some.inj there).symm
  empty := by
    intro impossible
    cases impossible

theorem serving_heldDaemon (logClean : Bool) :
    Serving (anyUpkeep demoRoots) (heldDaemon logClean) (fun _ => []) (heldWorld logClean) := by
  refine ⟨rfl, ?_, ?_, ?_, ?_, ?_⟩
  · intro pooled impossible
    cases impossible
  · intro filter member
    obtain rfl := List.mem_singleton.mp member
    exact ⟨seated_heldFilter logClean, matched_heldFilter logClean⟩
  · exact List.nodup_singleton _
  · exact fun _ _ => trivial
  · exact fun _ _ _ => trivial

/-- With a clean log the DROP is atomic; while digests wait for the next sync it is not. -/
theorem drop_crash_atomic_held :
    (∀ answers, DropAtomic demoRoots (heldFilter true) (heldWorld true)
      (handleDrop (heldDaemon true) demoName (heldWorld true) answers).state) ∧
    ¬ ∀ answers, DropAtomic demoRoots (heldFilter false) (heldWorld false)
      (handleDrop (heldDaemon false) demoName (heldWorld false) answers).state := by
  have decides := fun logClean => drop_crash_atomic_iff (serving_heldDaemon logClean) List.mem_cons_self
    (holding_heldFilter logClean) (recoverable_heldWorld logClean) (by decide)
  constructor
  · apply (decides true).mpr
    constructor
    · intro other valid different
      rw [World.meaning_unaccepted valid fun record accepted => different (only_heldWorld accepted)]
      exact Meaning.noConfusion
    · intro _
      refine ⟨rfl, ?_⟩
      intro digests logged
      obtain rfl := Option.some.inj logged
      decide
  · intro atomic
    have clean := (((decides false).mp atomic).2 rfl).1
    cases clean

end Bloomd
