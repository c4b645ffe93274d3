import Bloomd.LoadMeaning

/-! A startup without faults comes up with what the disk means, unless one name is refused.
Attempts that fail or are cut short before it make no difference. -/

namespace Bloomd

open CrashLogic Prog

section Turn

variable {env : Env} {config : Config} {name : Bytes} {record : MetaRecord} {begun middle world : World}
  {map : Nat} {unpinOnError : Bool}

theorem completes_metaRecoverStale (path : Bytes) :
    Completes (do let _ ← metaRecoverStale path; pure Ready.aside) (fun ready _ => ready = .aside) world := by
  apply completes_bind
  apply completes_bind
  apply completes_call
  intro answer _
  simp only
  split
  · exact completes_pure _ (completes_pure _ rfl)
  · apply completes_attempt
    exact completes_pure _ rfl

/-- A map that matches its record is made ready. -/
theorem completes_prepareFilter {record : FilterMeta} (matched : Matched record.toMetaRecord map world) :
    Completes (prepareFilter record map unpinOnError) (fun ready _ => ∀ failure, ready ≠ .failed failure) world := by
  apply completes_bind
  apply completes_validateOpenPinnedMap.mono
  rintro checked after ⟨rfl, agrees⟩
  obtain rfl := agrees.mpr matched
  apply completes_bind
  apply (completes_openLoadedLog _).mono
  rintro ⟨opened, filter⟩ last same
  obtain rfl : opened = .ok () := same
  apply completes_pure
  intro failure impossible
  cases impossible

theorem completes_prepareFilter_any {record : FilterMeta} :
    Completes (prepareFilter record map unpinOnError) (fun _ _ => True) world := by
  by_cases matched : Matched record.toMetaRecord map world
  · exact (completes_prepareFilter matched).mono fun _ _ _ => trivial
  · apply completes_bind
    apply completes_validateOpenPinnedMap.mono
    rintro checked after ⟨rfl, agrees⟩
    cases checked with
    | ok done => exact absurd (agrees.mp rfl) matched
    | error failure =>
      apply completes_bind
      exact (completes_cleanupEntry unpinOnError).mono fun _ _ _ => completes_pure _ trivial

section Accepting

variable (accepted : Accepted config name record begun) (placed : (config.logPathOf name).length < pathMax)
  (homed : record.pinPath = config.pinPathOf name)

include accepted placed homed

/-- A clean record with data and without its pin -/
theorem completes_prepare_rebuilt (free : begun.pinAt record.pinPath = none)
    (unpinned : begun.pinned (resolve record.pinPath) = none)
    (data : record.hasData = true) (clean : record.logClean = true) :
    Completes (openOrRebuild config (config.loadedMeta name record)) (fun opened after =>
      Completes (prepareSeen (config.metaPathOf name) (.opened opened))
        (fun ready _ => begun.meaning config name ≠ .refused → ∀ failure, ready ≠ .failed failure) after) begun := by
  obtain ⟨positive, hashes, valueSize⟩ := accepted.ranges
  have named : (config.loadedMeta name record).name = name := accepted.named
  apply completes_openOrRebuild_clean free data clean
  by_cases possible : (config.pinPathOf name).length < pathMax ∧ record.capacity < 2 ^ 32
  · obtain ⟨short, small⟩ := possible
    have fits : Fits config (config.loadedMeta name record).name := by
      rw [named]
      exact ⟨accepted.fits, placed, short⟩
    have assigned : assignFilterPaths config (config.loadedMeta name record) =
        .ok (config.loadedMeta name record) := by
      have placedAlready : { record with name := name, pinPath := config.pinPathOf name } = record := by
        rw [← homed, ← accepted.named]
      rw [assignFilterPaths_eq fits, named]
      exact congrArg (fun record => Except.ok (config.loadedMeta name record)) placedAlready
    cases present : begun.logAt (config.logPathOf name) with
    | none =>
      apply (completes_rebuildFromLog_missing assigned ⟨positive, small⟩ hashes present).mono
      rintro _ after ⟨failure, rfl, missing⟩
      simp only [missing, ↓reduceIte]
      apply (completes_metaRecoverStale _).mono
      rintro ready last rfl _ failure impossible
      cases impossible
    | some log =>
      apply (completes_rebuildFromLog assigned ⟨positive, small⟩ hashes present free).mono
      rintro _ after ⟨rfl, maps⟩
      have matched : Matched record begun.maps.length after := by
        rw [Matched, maps]
        exact @matched_created (config.loadedMeta name record) small hashes valueSize begun.maps _
      exact (completes_prepareFilter matched).mono fun _ _ fine _ => fine
  · have refused : begun.meaning config name = .refused := by
      rw [World.meaning_accepted accepted placed, unpinned]
      unfold Config.meaningOf
      simp only [data, clean, Bool.not_true, Bool.false_eq_true, ↓reduceIte, false_or]
      split
      · rfl
      · rename_i small
        rw [if_pos]
        by_contra short
        exact possible ⟨Nat.not_le.mp short, Nat.not_le.mp small⟩
    unfold rebuildFromLog
    cases assigned : assignFilterPaths config (config.loadedMeta name record) with
    | error errno =>
      obtain rfl := assignFilterPaths_error assigned
      exact completes_pure _ (completes_pure _ fun fine => absurd refused fine)
    | ok loaded =>
      obtain ⟨-, -, short, rfl⟩ := assignFilterPaths_ok assigned
      rw [named] at short
      have large : 2 ^ 32 ≤ record.capacity := by
        by_contra small
        exact possible ⟨short, Nat.not_le.mp small⟩
      apply completes_bind
      apply (@completes_bpfCreateMap_large begun (config.loadedMeta name record) large).mono
      rintro _ after ⟨failure, rfl, beyond⟩
      apply completes_pure
      simp only [beyond, reduceCtorEq, ↓reduceIte]
      exact completes_pure _ fun fine => absurd refused fine

/-- An accepted record is loaded unless its name is refused. -/
theorem completes_prepare_opened (sound : begun.Sound) :
    Completes (openOrRebuild config (config.loadedMeta name record)) (fun opened after =>
      Completes (prepareSeen (config.metaPathOf name) (.opened opened))
        (fun ready _ => begun.meaning config name ≠ .refused → ∀ failure, ready ≠ .failed failure) after) begun := by
  obtain ⟨positive, hashes, valueSize⟩ := accepted.ranges
  cases there : begun.pinAt record.pinPath with
  | some map =>
    obtain ⟨kernel, held, pinned⟩ := sound.pinned there
    apply (completes_openOrRebuild_pinned there).mono
    rintro _ after ⟨rfl, reached⟩
    rw [reached]
    by_cases matching : Matching record kernel.info
    · exact (completes_prepareFilter ⟨kernel, held, matching⟩).mono fun _ _ fine _ => fine
    · have refused : begun.meaning config name = .refused := by
        rw [World.meaning_accepted accepted placed, pinned]
        unfold Config.meaningOf
        simp only
        rw [if_neg matching]
      exact completes_prepareFilter_any.mono fun _ _ _ fine => absurd refused fine
  | none =>
    have unpinned : begun.pinned (resolve record.pinPath) = none := by
      rw [World.pinned, show begun.pins.lookup (resolve record.pinPath) = none from there]
      rfl
    cases data : record.hasData with
    | false =>
      by_cases small : record.capacity < 2 ^ 32
      · apply (completes_openOrRebuild_empty there data ⟨positive, small⟩ hashes).mono
        rintro _ _ ⟨rfl, rfl⟩
        have matched : Matched record begun.maps.length
            (begun.addMap ⟨createdMapInfo record.capacity record.hashes, []⟩) :=
          @matched_created (config.loadedMeta name record) small hashes valueSize begun.maps []
        exact (completes_prepareFilter matched).mono fun _ _ fine _ => fine
      · have refused : begun.meaning config name = .refused := by
          rw [World.meaning_accepted accepted placed, unpinned]
          unfold Config.meaningOf
          simp only
          rw [if_pos (Nat.not_lt.mp small)]
        apply completes_bind
        apply completes_attempt
        rw [show begun.pinAt (config.loadedMeta name record).pinPath = none from there]
        simp only [↓reduceIte, show (config.loadedMeta name record).hasData = false from data, Bool.not_false]
        apply completes_bind
        apply (@completes_bpfCreateMap_large begun (config.loadedMeta name record) (Nat.not_lt.mp small)).mono
        rintro _ after ⟨failure, rfl, _⟩
        exact completes_pure _ (completes_pure _ fun fine => absurd refused fine)
    | true =>
      cases clean : record.logClean with
      | false =>
        have refused : begun.meaning config name = .refused := by
          rw [World.meaning_accepted accepted placed, unpinned]
          unfold Config.meaningOf
          simp only [data, clean, Bool.not_true, Bool.not_false, Bool.false_eq_true, ↓reduceIte, true_or]
          split
          · rfl
          · rfl
        apply (completes_openOrRebuild_unclean there data clean).mono
        rintro _ after ⟨failure, rfl, _⟩
        exact completes_pure _ fun fine => absurd refused fine
      | true => exact completes_prepare_rebuilt accepted placed homed there unpinned data clean

end Accepting

/-- Without faults the turn for a name fails only where the name is refused. -/
theorem completes_prepareEntry (readable : env.reads (config.metaPathOf name) = .ok) (valid : nameIsValid name = true)
    (homed : Homed config name begun) (sound : begun.Sound) :
    Completes (prepareEntry env config (metaLeaf name))
      (fun ready _ => begun.meaning config name ≠ .refused → ∀ failure, ready ≠ .failed failure) begun := by
  have path : joined config.metaRoot (metaLeaf name) [] = config.metaPathOf name := joined_metaLeaf config name
  by_cases some : ∃ record, Accepted config name record begun
  · obtain ⟨record, accepted⟩ := some
    unfold prepareEntry
    rw [path]
    apply completes_bind
    apply completes_lookEntry accepted readable
    · intro long failure
      exact completes_pure _ fun fine => absurd (World.meaning_unplaced accepted long) fine
    · exact fun placed => completes_prepare_opened accepted placed (homed record accepted) sound
  · have asides : Completes (do let _ ← metaRecoverStale (config.metaPathOf name); pure Ready.aside)
        (fun ready _ => begun.meaning config name ≠ .refused → ∀ failure, ready ≠ .failed failure) begun := by
      apply (completes_metaRecoverStale _).mono
      rintro ready last rfl _ failure impossible
      cases impossible
    have nothing : Completes (pure Ready.nothing)
        (fun ready _ => begun.meaning config name ≠ .refused → ∀ failure, ready ≠ .failed failure) begun := by
      apply completes_pure
      intro _ failure impossible
      cases impossible
    unfold prepareEntry lookEntry
    simp only [path, metaEntryName_metaLeaf valid]
    split
    · exact completes_bind (completes_pure _ nothing)
    · split
      · exact completes_bind (completes_pure _ nothing)
      · rename_i fits
        unfold lookRecord
        rw [bind_assoc]
        apply completes_bind
        apply completes_call
        intro answer _
        simp only [readable]
        cases present : begun.fileAt (config.metaPathOf name) with
        | none => exact asides
        | some file =>
          cases file with
          | none => exact asides
          | some stored =>
            cases decoded : stored.readBack with
            | none =>
              simp only [decoded]
              exact asides
            | some record =>
              simp only [decoded]
              split
              · exact asides
              · rename_i passes
                simp only [not_or, ne_eq, Decidable.not_not, Bool.not_eq_true', Bool.not_eq_false] at passes
                obtain ⟨named, under, pinned⟩ := passes
                rw [named] at pinned
                exact absurd ⟨record, valid, Nat.not_le.mp fits, ⟨stored, present, decoded⟩, named, under, pinned⟩ some

end Turn

section Load

variable {env : Env} {config : Config} {begun world : World} {loading : Loading} {entry : Bytes} {done : List Bytes}

/-- No name is refused. -/
def World.Loadable (world : World) (config : Config) : Prop :=
  ∀ name, nameIsValid name = true → world.meaning config name ≠ .refused

theorem completes_prepareEntry_any (legible : Legible env config begun) (entry : Bytes) :
    Completes (prepareEntry env config entry)
      (fun ready _ => begun.Loadable config → ∀ failure, ready ≠ .failed failure) begun := by
  cases found : metaEntryName entry with
  | error errno =>
    rw [prepareEntry_ignored fun name => by rw [found]; intro impossible; cases impossible]
    apply completes_pure
    intro _ failure impossible
    cases impossible
  | ok name =>
    obtain ⟨rfl, valid⟩ := metaEntryName_ok found
    apply (completes_prepareEntry (legible.sees.reads name valid) valid (legible.homed name valid) legible.sound).mono
    exact fun ready _ fine loadable => fine (loadable name valid)

theorem completes_finishEntry (ready : Ready) :
    Completes (finishEntry loading ready)
      (fun result _ => (∀ failure, ready ≠ .failed failure) → result.1 = .ok ()) world := by
  cases ready with
  | nothing => exact completes_pure _ fun _ => rfl
  | aside => exact completes_pure _ fun _ => rfl
  | failed failure => exact completes_pure _ fun fine => absurd rfl (fine failure)
  | filter record filter unpinOnError =>
    apply completes_bind
    apply (completes_filterSetAdd loading.set filter).mono
    rintro _ after ⟨later, rfl, _⟩
    exact completes_pure _ fun _ => rfl

theorem Gathering.completes_loadEntries (legible : Legible env config begun) (entries : List Bytes) :
    ∀ (done : List Bytes) (loading : Loading) (world : World), (done ++ entries).Nodup →
      Gathering config begun done loading.set.items world →
      Completes (loadEntries env config entries loading)
        (fun result _ => begun.Loadable config → result.1 = .ok ()) world := by
  induction entries with
  | nil => exact fun done loading world _ _ => completes_pure _ fun _ => rfl
  | cons entry rest ih =>
    intro done loading world unique gathering
    have fresh : entry ∉ done := fun member => List.disjoint_of_nodup_append unique member List.mem_cons_self
    have missing : ∀ name, metaEntryName entry = .ok name → (loading.set.findN name).1 = none := by
      intro name found
      obtain ⟨rfl, valid⟩ := metaEntryName_ok found
      exact FilterSet.findN_of_named (fun filter member => (gathering.named filter member).1) valid
        (gathering.unserved fresh)
    have later := legible.later gathering.kept
    have loadable : begun.Loadable config → world.Loadable config := by
      intro loadable name valid
      rw [(gathering.kept.steady name valid).meaning]
      exact loadable name valid
    unfold loadEntries
    rw [loadEntry_prepared env config missing, bind_assoc]
    apply completes_bind
    apply ((completes_prepareEntry_any later entry).covered (wp_prepareEntry_kept later entry)).mono
    rintro ready middle ⟨fine, kept, ignored, makes⟩
    apply completes_bind
    apply ((completes_finishEntry ready).covered (gathering.wp_finishEntry kept fresh ignored makes)).mono
    rintro ⟨loaded, loading⟩ after ⟨succeeds, _, _, gathered⟩
    cases loaded with
    | error failure =>
      apply completes_pure
      intro all
      cases succeeds (fine (loadable all))
    | ok _ => exact ih (done ++ [entry]) loading after (by simpa using unique) (gathered rfl)

theorem completes_freeFilters_clear (items : List Filter) : ∀ world : World, (∀ filter ∈ items, filter.logBuf = []) →
    Completes (freeFilters items) (fun _ _ => True) world := by
  induction items with
  | nil => exact fun world _ => completes_pure _ trivial
  | cons filter rest ih =>
    intro world clear
    have others : ∀ other ∈ rest, other.logBuf = [] := fun other member => clear other (List.mem_cons_of_mem _ member)
    unfold freeFilters
    rw [clear filter List.mem_cons_self]
    apply completes_bind
    cases filter.logFd with
    | none => exact completes_pure _ (ih world others)
    | some path =>
      have writes : Completes (writeAll path []) (fun result _ => result = .ok ()) world :=
        ⟨fun _ _ => ⟨0, .ok (), world, rfl, fun _ => rfl⟩⟩
      apply completes_bind
      apply writes.mono
      rintro _ middle rfl
      simp only [↓reduceIte]
      apply completes_bind
      apply completes_attempt
      exact completes_pure _ (ih _ others)

/-- Without faults a startup returns, and it fails if and only if some name is refused. -/
theorem completes_startup_loadable (legible : Legible env config begun) (rooted : config.metaRoot ≠ []) :
    Completes (startup env config) (fun result _ => (∃ daemon, result = .ok daemon) ↔
      begun.Loadable config) begun := by
  have start := Gathering.start config legible.sound
  have unique := env.nodup_metaListing config begun
  have turns := Gathering.completes_loadEntries legible _ [] ⟨.init, .zero⟩ begun unique start
  have comesUp : Completes (startup env config)
      (fun result _ => begun.Loadable config → ∃ daemon, result = .ok daemon) begun := by
    apply completes_bind
    apply completes_bind
    apply completes_attempt
    apply (turns.covered (Gathering.wp_loadEntries legible _ [] ⟨.init, .zero⟩ begun unique start)).mono
    rintro ⟨loaded, loading⟩ middle ⟨succeeds, clear, _, gathered⟩
    cases loaded with
    | error failure =>
      apply completes_bind
      apply (completes_freeFilters_clear loading.set.items middle clear).mono
      intro _ after _
      apply completes_pure
      intro loadable
      cases succeeds loadable
    | ok _ =>
      have valids : loading.set.Valid := fun filter member => ((gathered rfl).named filter member).1
      apply completes_bind
      apply completes_bind
      apply completes_attempt
      apply completes_bind
      apply (completes_cleanupPins _ loading middle valids).mono
      intro later last _
      exact completes_pure _ (completes_pure _ fun _ => ⟨_, rfl⟩)
  apply (comesUp.covered (wp_startup_agreeing legible rooted)).mono
  rintro result after ⟨succeeds, _, agreeing⟩
  constructor
  · rintro ⟨daemon, rfl⟩
    exact (agreeing daemon rfl).2.accepted
  · exact succeeds

end Load

end Bloomd
