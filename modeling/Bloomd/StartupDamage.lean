import Bloomd.InspectOrphans
import Bloomd.StartupSafety

/-! When a startup spares a healthy filter. An error that keeps the loader from reading
the metadata file is enough to lose the file or, where the file cannot be renamed, the
pin. An error that cuts the listing of the directory short before the file is enough to
lose the pin. -/

namespace Bloomd

open CrashLogic Prog

/-- A startup whose directories list one entry before all others -/
def Env.leading (entry : Bytes) (cut : Option Nat) (reads : Bytes → ReadAnswer) : Env where
  order entries := if entry ∈ entries then entry :: entries.erase entry else entries
  perm entries := by
    split
    · rename_i member
      exact (List.perm_cons_erase member).symm
    · exact List.Perm.refl _
  filesCut := cut
  pinsCut := none
  reads := reads

/-- A startup whose directories list one entry after all others -/
def Env.trailing (entry : Bytes) (cut : Option Nat) (reads : Bytes → ReadAnswer) : Env where
  order entries := if entry ∈ entries then entries.erase entry ++ [entry] else entries
  perm entries := by
    split
    · rename_i member
      exact List.perm_append_comm.trans (List.perm_cons_erase member).symm
    · exact List.Perm.refl _
  filesCut := cut
  pinsCut := none
  reads := reads

/-- Only the metadata file of one filter can be read. -/
def readsOnly (roots : Config) (name path : Bytes) : ReadAnswer :=
  if path = roots.metaPathOf name then .ok else .readFails

/-- A listing that ends after so many of the entries has them all. -/
def CutWhole (cut : Option Nat) (entries : List Bytes) : Prop := ∀ count, cut = some count → entries.length ≤ count

/-- The healthy filter survives every startup in which its file reads as `outcome` and the
listing of the metadata directory ends at `cut`, and every startup without such errors
after it. -/
def SparesHealthy (roots : Config) (name : Bytes) (record : MetaRecord) (map : Nat) (world : World)
    (outcome : ReadAnswer) (cut : Option Nat) : Prop :=
  ∀ env mode answers, env.reads (roots.metaPathOf name) = outcome → env.filesCut = cut →
    let started := (startup env (roots.withMode mode) world answers).state
    Intact roots name record map world started ∧
      ∀ env' mode' pid answers', (∀ path, env'.reads path = .ok) → env'.filesCut = none →
        Intact roots name record map world
          (startup env' (roots.withMode mode') { started with pid } answers').state

section

variable {env : Env} {roots : Config} {mode : LogSyncMode} {name : Bytes} {record : MetaRecord} {map : Nat}
  {world : World} {outcome : ReadAnswer} {cut : Option Nat}

theorem readsOnly_own (roots : Config) (name : Bytes) :
    readsOnly roots name (roots.metaPathOf name) = .ok := if_pos rfl

theorem readsOnly_other {entry : Bytes} (different : entry ≠ metaLeaf name) :
    readsOnly roots name (joined roots.metaRoot entry []) ≠ .ok := by
  have apart : joined roots.metaRoot entry [] ≠ roots.metaPathOf name := by
    intro same
    rw [← joined_metaLeaf roots name] at same
    exact different (by simpa [joined] using same)
  rw [readsOnly, if_neg apart]
  decide

/-- The entry that leads is listed first, unless nothing is listed at all. -/
theorem leading_metaListing {reads : Bytes → ReadAnswer} {entry : Bytes} (begins : cut ≠ some 0)
    (present : entry ∈ entriesIn world.files (resolve roots.metaRoot)) :
    ∃ rest, (Env.leading entry cut reads).metaListing roots world = entry :: rest ∧ entry ∉ rest := by
  have fresh : entry ∉ (entriesIn world.files (resolve roots.metaRoot)).erase entry :=
    List.Nodup.not_mem_erase (nodup_entriesIn _ _)
  have order : (Env.leading entry cut reads).order (entriesIn world.files (resolve roots.metaRoot)) =
      entry :: (entriesIn world.files (resolve roots.metaRoot)).erase entry := if_pos present
  cases cut with
  | none => exact ⟨_, order, fresh⟩
  | some count =>
    obtain ⟨more, rfl⟩ := Nat.exists_eq_succ_of_ne_zero fun zero => begins (congrArg some zero)
    refine ⟨((entriesIn world.files (resolve roots.metaRoot)).erase entry).take more, ?_, ?_⟩
    · change List.take (more + 1) ((Env.leading entry (some (more + 1)) reads).order _) = _
      rw [order, List.take_succ_cons]
    · exact fun member => fresh (List.mem_of_mem_take member)

/-- The entry that trails is left out by a listing that is cut short. -/
theorem trailing_metaListing {reads : Bytes → ReadAnswer} {entry : Bytes} {count : Nat}
    (present : entry ∈ entriesIn world.files (resolve roots.metaRoot))
    (short : count < (entriesIn world.files (resolve roots.metaRoot)).length) :
    entry ∉ (Env.trailing entry (some count) reads).metaListing roots world := by
  have order : (Env.trailing entry (some count) reads).order (entriesIn world.files (resolve roots.metaRoot)) =
      (entriesIn world.files (resolve roots.metaRoot)).erase entry ++ [entry] := if_pos present
  have bound : count ≤ ((entriesIn world.files (resolve roots.metaRoot)).erase entry).length := by
    rw [List.length_erase_of_mem present]
    omega
  change entry ∉ List.take count ((Env.trailing entry (some count) reads).order _)
  rw [order, List.take_append_of_le_length bound]
  exact fun member => List.Nodup.not_mem_erase (nodup_entriesIn _ _) (List.mem_of_mem_take member)

theorem metaReadFile_failing {path : Bytes} (failing : env.reads path ≠ .ok) (answer : Answer) (rest : List Answer) :
    ∃ errno, metaReadFile env path world (answer :: rest) = .returned (.error errno) world rest := by
  cases reads : env.reads path with
  | ok => exact absurd reads failing
  | openFails fault => exact ⟨fault.errno, by simp [metaReadFile, call, reads]⟩
  | readFails =>
    cases present : world.fileAt path with
    | none => exact ⟨.enoent, by simp [metaReadFile, call, reads, present]⟩
    | some file => exact ⟨.einval, by simp [metaReadFile, call, reads, present]⟩

theorem wp_cleanupPins_files {config : Config} {path : Bytes} {file : Option (Option MetaRecord)}
    (entries : List Bytes) : ∀ (loading : Loading) (world : World), world.fileAt path = file →
      wp (cleanupPins config entries loading) (fun _ last => last.fileAt path = file)
        (fun last => last.fileAt path = file) world := by
  induction entries with
  | nil => exact fun loading world held => (wp_pure _).mpr held
  | cons entry rest ih =>
    intro loading world held
    unfold cleanupPins
    split
    · exact ih loading world held
    · simp only
      split
      · exact ih _ world held
      · split
        · exact ih _ world held
        · have unlinks : wp (sysUnlinkPin (joined config.pinRoot entry [])) (fun _ last => last.fileAt path = file)
              (fun last => last.fileAt path = file) world := by
            apply wp_attempt held
            · exact fun _ _ => held
            · cases world.pinAt (joined config.pinRoot entry []) with
              | none => exact held
              | some map => exact held
          apply wp_bind
          apply unlinks.mono _ fun _ held => held
          intro result last kept
          cases result with
          | error errno => exact ih _ last kept
          | ok done => exact ih _ last kept

/-- No step of a startup after the load brings a metadata file back. -/
theorem startup_gone {config : Config} {path : Bytes} {answers : List Answer}
    (gone : (loadMetadataDir env config ⟨.init, .zero⟩ world answers).state.fileAt path = none) :
    (startup env config world answers).state.fileAt path = none := by
  have frees : ∀ (set : FilterSet) (failure : Failure) (middle : World), middle.fileAt path = none →
      wp (do filterSetFree set; pure (.error failure) : Sys (Except Failure Daemon))
        (fun _ last => last.fileAt path = none) (fun last => last.fileAt path = none) middle := by
    intro set failure middle held
    have changes : ∀ {world : World} log change, world.fileAt path = none →
        (world.changeLog log change).fileAt path = none := by
      intro world log change held
      rw [World.fileAt, World.changeLog_files]
      exact held
    apply wp_bind
    apply (@wp_freeFilters_logs (fun last => last.fileAt path = none) changes set.items middle held).mono
    · exact fun _ last held => (wp_pure _).mpr held
    · exact fun _ held => held
  apply @bind_stops _ _ _ _ (fun last : World => last.fileAt path = none)
  · exact gone
  · rintro ⟨loaded, loading⟩ middle held
    cases loaded with
    | error failure => exact frees _ _ middle held
    | ok done =>
      have reconciles : wp (cleanupOrphanPins env config loading) (fun _ last => last.fileAt path = none)
          (fun last => last.fileAt path = none) middle := by
        apply wp_bind
        apply wp_attempt held
        · intro errno transient
          simp only [transient.ne_enoent, ↓reduceIte]
          exact (wp_pure _).mpr held
        · apply wp_bind
          apply (wp_cleanupPins_files _ loading middle held).mono
          · exact fun _ last held => (wp_pure _).mpr held
          · exact fun _ held => held
      apply wp_bind
      apply reconciles.mono _ fun _ held => held
      rintro ⟨cleaned, later⟩ last held
      cases cleaned with
      | error errno => exact frees _ _ last held
      | ok done => exact (wp_pure _).mpr held

theorem Healthy.staleName_ne (healthy : Healthy roots name record map world) :
    resolve (roots.metaPathOf name) ≠ resolve (roots.staleName name) := by
  intro same
  have leaf := congrArg Loc.leaf same
  rw [leaf_metaPathOf roots healthy.valid, Config.staleName, leaf_copy roots healthy.valid _ (by decide)] at leaf
  exact copy_ne_metaLeaf _ _ _ leaf.symm

/-- A file that cannot be read is renamed when it comes first and its stale name fits. -/
theorem Healthy.renamed (healthy : Healthy roots name record map world) (rooted : roots.Rooted)
    (begins : cut ≠ some 0) (failing : outcome ≠ .ok) (short : (roots.staleName name).length < pathMax) :
    (startup (.leading (metaLeaf name) cut fun _ => outcome) (roots.withMode mode) world
      (List.replicate 4 .ok)).state.fileAt (roots.metaPathOf name) = none := by
  apply startup_gone
  obtain ⟨file, present⟩ := healthy.file
  obtain ⟨entries, listing, fresh⟩ :=
    @leading_metaListing roots world cut (fun _ => outcome) _ begins (healthy.present rooted)
  generalize opened : Env.leading (metaLeaf name) cut (fun _ => outcome) = env at listing ⊢
  have failing : env.reads (roots.metaPathOf name) ≠ .ok := by
    subst opened
    exact failing
  obtain ⟨errno, unread⟩ := @metaReadFile_failing env world (roots.metaPathOf name) failing .ok [.ok, .ok]
  have renames : metaRecoverStale (roots.metaPathOf name) world [.ok, .ok] = .returned (.ok ())
      ((world.dropFile (roots.metaPathOf name)).setFile (roots.staleName name) file) [] := by
    have fits : ¬ pathMax ≤ (roots.metaPathOf name ++ bytes ".stale." ++ natText 0).length := Nat.not_le.mpr short
    simp only [metaRecoverStale, sysClock, bind_apply, call, Answer.clock, fits, ↓reduceIte, sysRename, attempt,
      Answer.refusal, present]
    rfl
  obtain ⟨later, turn⟩ : ∃ later, loadEntry env (roots.withMode mode) (metaLeaf name) ⟨.init, .zero⟩ world
      [.ok, .ok, .ok] = .returned (.ok (), later)
        ((world.dropFile (roots.metaPathOf name)).setFile (roots.staleName name) file) [] := by
    rw [loadEntry_metaLeaf env healthy.valid healthy.fits, loadRecord, bind_apply, unread]
    simp only [quarantine, bind_apply, renames]
    exact ⟨_, rfl⟩
  have loads : loadMetadataDir env (roots.withMode mode) ⟨.init, .zero⟩ world (List.replicate 4 .ok) =
      loadEntries env (roots.withMode mode) entries later
        ((world.dropFile (roots.metaPathOf name)).setFile (roots.staleName name) file) [] := by
    change loadEntries env (roots.withMode mode) (env.metaListing roots world) ⟨.init, .zero⟩ world [.ok, .ok, .ok] = _
    rw [listing, loadEntries, bind_apply, turn]
  rw [loads]
  have apart := (@keepsApart_loadEntries roots mode name env _ fresh later).stops
      ((world.dropFile (roots.metaPathOf name)).setFile (roots.staleName name) file) []
  rw [apart.fileAt healthy.valid roots, World.fileAt, World.setFile_files, AList.lookup_insert_ne healthy.staleName_ne,
    World.dropFile_files, AList.lookup_erase]

/-- A file that cannot be read is set aside or passed over. -/
theorem completes_loadEntry_unread {config : Config} {entry : Bytes}
    (failing : env.reads (joined config.metaRoot entry []) ≠ .ok) (loading : Loading) :
      Completes (loadEntry env config entry loading)
      (fun result after => result.1 = .ok () ∧ result.2.set = loading.set ∧ after.pins = world.pins) world := by
  unfold loadEntry
  split
  · exact completes_pure _ ⟨rfl, rfl, rfl⟩
  · simp only
    split
    · exact completes_pure _ ⟨rfl, rfl, rfl⟩
    · split
      · exact completes_pure _ ⟨rfl, rfl, rfl⟩
      · rename_i other named
        have recovers : Completes (metaRecoverStale (joined config.metaRoot entry []))
            (fun _ after => after.pins = world.pins) world := by
          apply completes_bind
          apply completes_call
          intro answer _
          simp only
          split
          · exact completes_pure _ rfl
          · apply completes_attempt
            cases world.fileAt (joined config.metaRoot entry []) with
            | none => rfl
            | some file => rfl
        obtain ⟨errno, unread⟩ := (metaReadFile_cases env (joined config.metaRoot entry []) world).resolve_right
          fun readable => failing readable.1
        apply completes_bind
        apply unread.mono
        rintro result after ⟨rfl, rfl⟩
        apply completes_bind
        apply completes_bind
        apply recovers.mono
        intro _ last pins
        apply completes_pure
        apply completes_pure
        exact ⟨rfl, rfl, pins⟩

theorem completes_loadEntries_unread {config : Config} {entries : List Bytes}
    (failing : ∀ entry ∈ entries, env.reads (joined config.metaRoot entry []) ≠ .ok) :
    ∀ (loading : Loading) (world : World), Completes (loadEntries env config entries loading)
      (fun result after => result.1 = .ok () ∧ result.2.set = loading.set ∧ after.pins = world.pins) world := by
  induction entries with
  | nil => exact fun loading world => completes_pure _ ⟨rfl, rfl, rfl⟩
  | cons entry rest ih =>
    intro loading world
    apply completes_bind
    apply (completes_loadEntry_unread (failing entry List.mem_cons_self) loading).mono
    rintro ⟨loaded, later⟩ middle ⟨rfl, same, pins⟩
    apply (ih (fun other member => failing other (List.mem_cons_of_mem _ member)) later middle).mono
    rintro result after ⟨succeeded, kept, unmoved⟩
    exact ⟨succeeded, kept.trans same, unmoved.trans pins⟩

/-- A startup that can read no metadata file that it lists removes every pin of its root that
it can reach. -/
theorem completes_startup_unread {config : Config} (whole : env.pinsCut = none)
    (failing : ∀ entry ∈ env.metaListing config world, env.reads (joined config.metaRoot entry []) ≠ .ok)
    (rooted : config.pinRoot ≠ []) (valid : nameIsValid name = true)
    (fits : (config.pinPathOf name).length < pathMax) :
    Completes (startup env config) (fun _ after => after.pinAt (config.pinPathOf name) = none) world := by
  have loads : Completes (loadMetadataDir env config ⟨.init, .zero⟩)
      (fun result after => result.1 = .ok () ∧ result.2.set = .init ∧ after.pins = world.pins) world := by
    apply completes_bind
    apply completes_attempt
    exact completes_loadEntries_unread failing _ world
  apply completes_bind
  apply loads.mono
  rintro ⟨loaded, ⟨set, stats⟩⟩ middle ⟨rfl, rfl, _⟩
  have reconciles : Completes (cleanupOrphanPins env config ⟨.init, stats⟩)
      (fun result after => result.1 = .ok () ∧ after.pinAt (config.pinPathOf name) = none) middle := by
    apply completes_bind
    apply completes_attempt
    apply completes_bind
    apply (completes_cleanupPins _ ⟨.init, stats⟩ middle nofun).mono
    intro later after sweeps
    apply completes_pure
    refine ⟨rfl, ?_⟩
    by_cases swept : Swept config .init (env.listing env.pinsCut (pinEntries middle (resolve config.pinRoot)))
        (resolve (config.pinPathOf name))
    · exact (sweeps _).1 swept
    · rw [World.pinAt, (sweeps _).2 swept]
      by_contra there
      rw [resolve_pinPathOf rooted valid] at there
      have listed := (env.perm_pinListing whole config middle).mem_iff.mpr
        (mem_pinEntries_of_pin (mem_entriesIn.mpr there))
      exact swept ⟨name, listed, valid, rfl, fits, rfl⟩
  apply completes_bind
  apply reconciles.mono
  rintro ⟨cleaned, later⟩ last ⟨rfl, gone⟩
  exact completes_pure _ gone

/-- A pin without a metadata file that is listed and can be read is taken for an orphan. -/
theorem Healthy.unpinned (healthy : Healthy roots name record map world) (rooted : roots.Rooted)
    (whole : env.pinsCut = none)
    (failing : ∀ entry ∈ env.metaListing roots world, env.reads (joined roots.metaRoot entry []) ≠ .ok)
    (reclaimable : Reclaimable roots name record) :
    ∃ answers, (startup env (roots.withMode mode) world answers).state.pinAt record.pinPath = none := by
  have completes := @completes_startup_unread env name world (roots.withMode mode) whole failing rooted.pinRoot
    healthy.valid reclaimable.fits
  obtain ⟨used, result, after, gone, run⟩ := completes.run (fun _ => .ok) fun _ => trivial
  refine ⟨supplied (fun _ => .ok) used ++ [], ?_⟩
  rw [run]
  change after.pins.lookup (resolve record.pinPath) = none
  rw [← reclaimable.same]
  exact gone

/-- An error of the read or of the listing lets a cleanup take the pin for an orphan. -/
theorem Healthy.orphaned (healthy : Healthy roots name record map world) (rooted : roots.Rooted)
    (reclaimable : Reclaimable roots name record)
    (lost : ¬ (outcome = .ok ∧ CutWhole cut (entriesIn world.files (resolve roots.metaRoot)))) :
    ∃ env answers, env.reads (roots.metaPathOf name) = outcome ∧ env.filesCut = cut ∧
      (startup env (roots.withMode mode) world answers).state.pinAt record.pinPath = none := by
  by_cases failing : outcome = .ok
  · have short : ∃ count, cut = some count ∧ count < (entriesIn world.files (resolve roots.metaRoot)).length := by
      by_contra long
      refine lost ⟨failing, fun count same => Nat.not_lt.mp fun less => long ⟨count, same, less⟩⟩
    obtain ⟨count, rfl, short⟩ := short
    have unlisted := @trailing_metaListing roots world (readsOnly roots name) _ count (healthy.present rooted) short
    obtain ⟨answers, gone⟩ :=
      @Healthy.unpinned (.trailing (metaLeaf name) (some count) (readsOnly roots name)) roots mode
      name record map world healthy rooted rfl
      (fun entry listed => readsOnly_other fun same => unlisted (same ▸ listed)) reclaimable
    exact ⟨_, answers, failing ▸ readsOnly_own roots name, rfl, gone⟩
  · obtain ⟨answers, gone⟩ := @Healthy.unpinned (.leading (metaLeaf name) cut fun _ => outcome) roots mode
      name record map world healthy rooted rfl (fun _ _ => failing) reclaimable
    exact ⟨_, answers, rfl, rfl, gone⟩

/-- A startup spares a healthy filter exactly when it keeps the file and the pin. The file
stays if it can be read, if it is too long to be renamed, or if the listing ends before it;
the pin stays if the cleanup cannot reach it, or if the file is listed and can be read. -/
theorem healthy_spared_iff (rooted : roots.Rooted) (healthy : Healthy roots name record map world) :
    SparesHealthy roots name record map world outcome cut ↔
      (outcome = .ok ∨ pathMax ≤ (roots.staleName name).length ∨ cut = some 0) ∧
      (¬ Reclaimable roots name record ∨
        outcome = .ok ∧ CutWhole cut (entriesIn world.files (resolve roots.metaRoot))) := by
  constructor
  · intro spares
    constructor
    · by_contra refused
      obtain ⟨failing, exposed⟩ := not_or.mp refused
      obtain ⟨short, begins⟩ := not_or.mp exposed
      have intact := (spares (.leading (metaLeaf name) cut fun _ => outcome) .always (List.replicate 4 .ok) rfl rfl).1
      obtain ⟨file, present⟩ := healthy.file
      have lost := intact.file
      rw [healthy.renamed rooted begins failing (Nat.not_le.mp short), present] at lost
      cases lost
    · by_contra refused
      obtain ⟨reachable, lost⟩ := not_or.mp refused
      obtain ⟨env, answers, read, ends, gone⟩ :=
        @Healthy.orphaned roots .always name record map world outcome cut healthy rooted (not_not.mp reachable) lost
      have intact := (spares env .always answers read ends).1
      rw [intact.pin] at gone
      cases gone
  · rintro ⟨keepsFile, keepsPin⟩ env mode answers rfl rfl
    have first : Intact roots name record map world (startup env (roots.withMode mode) world answers).state := by
      by_cases listed : metaLeaf name ∈ env.metaListing roots world
      · by_cases readable : env.reads (roots.metaPathOf name) = .ok
        · exact healthy.spared_readable listed readable answers
        · have unreachable := keepsPin.resolve_right fun fine => readable fine.1
          have long : pathMax ≤ (roots.staleName name).length := by
            rcases keepsFile.resolve_left readable with long | none
            · exact long
            · unfold Env.metaListing at listed
              rw [none] at listed
              exact absurd listed List.not_mem_nil
          exact healthy.spared_stuck listed readable long unreachable answers
      · have unreachable := keepsPin.resolve_right fun fine =>
          listed ((env.perm_listing fine.2).mem_iff.mpr (healthy.present rooted))
        exact healthy.spared_unlisted listed unreachable answers
    refine ⟨first, fun env' mode' pid answers' readable whole => ?_⟩
    have again : Healthy roots name record map
        { (startup env (roots.withMode mode) world answers).state with pid } :=
      ⟨healthy.toAccepted.of_file first.file, first.pin⟩
    have listed := (env'.mem_metaListing whole).mpr (again.present rooted)
    have second := @Healthy.spared_readable env' roots mode' name record map _ again listed (readable _) answers'
    exact ⟨second.file.trans first.file, second.pin⟩

end

/-- A filter with its metadata, its log and its pin -/
def wholeWorld : World :=
  (((World.empty.setFile (bytes "/m/x.meta") (some (unpinnedRecord true))).setLog (bytes "/m/x.digests")
    ⟨List.replicate 16 7, []⟩).addMap ⟨createdMapInfo 100 3, []⟩).setPin (bytes "/p/x") 0

theorem healthy_wholeWorld : Healthy demoRoots demoName (unpinnedRecord true) 0 wholeWorld :=
  ⟨⟨by decide, by decide, ⟨unpinnedRecord true, by decide, by decide⟩, rfl, by decide, by decide⟩, by decide⟩

/-- Too many open files at the one moment: the startup succeeds, without the filter. -/
theorem emfile_loses_healthy_filter :
    Healthy demoRoots demoName (unpinnedRecord true) 0 wholeWorld ∧
    ((startup (.leading (metaLeaf demoName) none fun _ => .openFails .emfile) demoRoots wholeWorld
      plenty).value.map fun result => result.toOption.map fun daemon => daemon.set.items.length) = some (some 0) ∧
    (startup (.leading (metaLeaf demoName) none fun _ => .openFails .emfile) demoRoots wholeWorld
      plenty).state.fileAt (demoRoots.metaPathOf demoName) = none ∧
    (startup (.leading (metaLeaf demoName) none fun _ => .openFails .emfile) demoRoots wholeWorld
      plenty).state.pinAt (bytes "/p/x") = none ∧
    ¬ SparesHealthy demoRoots demoName (unpinnedRecord true) 0 wholeWorld (.openFails .emfile) none := by
  have gone : (startup (.leading (metaLeaf demoName) none fun _ => .openFails .emfile) demoRoots wholeWorld
      plenty).state.fileAt (demoRoots.metaPathOf demoName) = none := by decide +kernel
  refine ⟨healthy_wholeWorld, by decide +kernel, gone, by decide +kernel, fun spares => ?_⟩
  have intact := (spares (.leading (metaLeaf demoName) none fun _ => .openFails .emfile) .always plenty rfl rfl).1
  have lost := intact.file
  rw [show demoRoots.withMode .always = demoRoots from rfl, gone] at lost
  exact absurd lost (by decide)

/-- The filter is spared when its file can be read, but not when the listing ends before it. -/
theorem healthy_spared_iff_wholeWorld :
    SparesHealthy demoRoots demoName (unpinnedRecord true) 0 wholeWorld .ok none ∧
    ¬ SparesHealthy demoRoots demoName (unpinnedRecord true) 0 wholeWorld .ok (some 0) := by
  have spared := @healthy_spared_iff demoRoots demoName (unpinnedRecord true) 0 wholeWorld .ok
  constructor
  · exact (spared ⟨by decide, by decide⟩ healthy_wholeWorld).mpr ⟨Or.inl rfl, Or.inr ⟨rfl, nofun⟩⟩
  · intro spares
    obtain ⟨-, unreachable | ⟨-, whole⟩⟩ := (spared ⟨by decide, by decide⟩ healthy_wholeWorld).mp spares
    · exact unreachable ⟨by decide, by decide⟩
    · exact absurd (whole 0 rfl) (by decide)

end Bloomd
