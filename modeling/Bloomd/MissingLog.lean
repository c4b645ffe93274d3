import Bloomd.CleanFlagInvariant
import Bloomd.RecoveryInvariant
import Bloomd.StartupDamage

/-! A filter whose digest log is gone while its pin is still there. The loader opens the
log with `O_CREAT`, so after one startup nothing tells the empty log from a complete
one, and a startup without the pin rebuilds the map from it. -/

namespace Bloomd

open CrashLogic Prog

section Alone

variable {roots : Config} {mode : LogSyncMode} {name : Bytes} {record : MetaRecord} {world : World}

/-- A startup that can read the metadata of one filter only, and lists it first -/
def Env.alone (roots : Config) (name : Bytes) : Env := .leading (metaLeaf name) none (readsOnly roots name)

theorem alone_reads (roots : Config) (name : Bytes) : (Env.alone roots name).reads (roots.metaPathOf name) = .ok :=
  readsOnly_own roots name

theorem alone_failing {entry : Bytes} (different : entry ≠ metaLeaf name) :
    (Env.alone roots name).reads (joined roots.metaRoot entry []) ≠ .ok :=
  readsOnly_other different

/-- What the turn of the one readable filter achieves is what the startup achieves. -/
theorem completes_startup_alone {post : Filter → World → Prop} (valid : nameIsValid name = true)
    (listed : metaLeaf name ∈ entriesIn world.files (resolve roots.metaRoot))
    (own : Completes (loadEntry (.alone roots name) (roots.withMode mode) (metaLeaf name) ⟨.init, .zero⟩)
      (fun turn after => turn.1 = .ok () ∧
        ∃ filter, turn.2.set.items = [filter] ∧ filter.name = name ∧ post filter after) world) :
    Completes (startup (.alone roots name) (roots.withMode mode)) (fun result after => ∃ daemon filter middle,
      result = .ok daemon ∧ filter ∈ daemon.set.items ∧ filter.name = name ∧ post filter middle ∧
        Apart name middle after) world := by
  have begins : (none : Option Nat) ≠ some 0 := by decide
  obtain ⟨rest, listing, fresh⟩ := @leading_metaListing roots world none (readsOnly roots name) _ begins listed
  have loads : Completes (loadMetadataDir (.alone roots name) (roots.withMode mode) ⟨.init, .zero⟩)
      (fun result after => result.1 = .ok () ∧ ∃ filter middle, result.2.set.items = [filter] ∧ filter.name = name ∧
        post filter middle ∧ Apart name middle after) world := by
    apply completes_bind
    apply completes_attempt
    change Completes (loadEntries (.alone roots name) (roots.withMode mode)
      ((Env.alone roots name).metaListing roots world) ⟨.init, .zero⟩) _ world
    rw [show (Env.alone roots name).metaListing roots world = metaLeaf name :: rest from listing]
    apply completes_bind
    apply own.mono
    rintro ⟨loaded, later⟩ middle ⟨rfl, filter, items, named, held⟩
    have failing : ∀ entry ∈ rest, (Env.alone roots name).reads
        (joined (roots.withMode mode).metaRoot entry []) ≠ .ok :=
      fun entry member => alone_failing fun same => fresh (same ▸ member)
    apply ((completes_loadEntries_unread failing later middle).covered
      (keepsApart_loadEntries _ rest fresh later middle)).mono
    rintro result after ⟨⟨succeeded, same, _⟩, _, apart⟩
    exact ⟨succeeded, filter, middle, by rw [same]; exact items, named, held, apart⟩
  apply completes_bind
  apply loads.mono
  rintro ⟨loaded, loading⟩ after ⟨rfl, filter, middle, items, named, held, apart⟩
  have member : filter ∈ loading.set.items := by
    rw [show loading.set.items = [filter] from items]
    exact List.mem_singleton_self _
  have valids : loading.set.Valid := by
    intro other inside
    rw [show loading.set.items = [filter] from items] at inside
    rw [List.mem_singleton.mp inside, named]
    exact valid
  have served : loading.set.named name ≠ [] := List.ne_nil_of_mem (FilterSet.mem_named.mpr ⟨member, named⟩)
  have cleans : Completes (cleanupOrphanPins (.alone roots name) (roots.withMode mode) loading)
      (fun result last => result.1 = .ok () ∧ result.2.set.items = loading.set.items ∧
        Apart name after last) after := by
    apply completes_bind
    apply completes_attempt
    apply completes_bind
    apply ((completes_cleanupPins _ loading after valids).covered
      (keepsApart_cleanupPins mode _ loading valids served after)).mono
    rintro later last ⟨_, same, moved⟩
    exact completes_pure _ ⟨rfl, same, moved⟩
  apply completes_bind
  apply cleans.mono
  rintro ⟨cleaned, later⟩ last ⟨rfl, same, moved⟩
  apply completes_pure
  exact ⟨_, filter, middle, rfl, by rw [show later.set.items = loading.set.items from same]; exact member, named, held,
    IsTrans.trans _ _ _ apart moved⟩

/-- The turn of an accepted record, from the search for its map on -/
theorem completes_loadEntry_accepted {env : Env} {loading : Loading}
    {post : Except Failure Unit × Loading → World → Prop}
    (accepted : Accepted roots name record world) (readable : env.reads (roots.metaPathOf name) = .ok)
    (placed : (roots.logPathOf name).length < pathMax)
    (opens : Completes (openOrRebuild (roots.withMode mode) (roots.loadedMeta name record)) (fun opened after =>
      Completes (actOn (roots.metaPathOf name) loading (.opened opened)) post after) world) :
    Completes (loadEntry env (roots.withMode mode) (metaLeaf name) loading) post world := by
  have again : Accepted (roots.withMode mode) name record world := { accepted with }
  rw [loadEntry_eq, show joined (roots.withMode mode).metaRoot (metaLeaf name) [] = roots.metaPathOf name from
    joined_metaLeaf roots name]
  apply completes_bind
  exact completes_lookEntry again readable (fun long => absurd placed (Nat.not_lt.mpr long)) fun _ => opens

/-- A map that matches is admitted, and the log of a filter with data is opened. -/
theorem completes_admitLoaded_exact {map : Nat} {unpinOnError : Bool} (valid : nameIsValid name = true)
    (named : record.name = name) (matched : Matched record map world) :
    Completes (admitLoaded ⟨.init, .zero⟩ (roots.metaPathOf name) (roots.loadedMeta name record) map unpinOnError)
      (fun turn after => turn.1 = .ok () ∧ ∃ filter, turn.2.set.items = [filter] ∧ filter.name = name ∧
        (∃ now, filter = roots.loaded name record map now) ∧ after = world.opened roots name record) world := by
  have exact' := @wp_admitLoaded_exact roots name world record map ⟨.init, .zero⟩ unpinOnError valid named rfl nofun
  apply (completes_admitLoaded.covered exact').mono
  rintro turn after ⟨agrees, _, done⟩
  have succeeded := agrees.mpr matched
  obtain ⟨_, reached, now, items⟩ := done succeeded
  exact ⟨succeeded, _, items, named, ⟨now, rfl⟩, reached⟩

end Alone

section Logless

variable {roots : Config} {mode : LogSyncMode} {name : Bytes} {record : MetaRecord} {held : List Digest}
    {world : World}

/-- The digests that a replay of a log reads -/
def World.loggedAt (world : World) (path : Bytes) : List Digest :=
  ((world.logAt path).map fun log => Framing.records digestSize log.data).getD []

/-- Valid metadata with data and a clean flag, and the pinned map that they describe, but
no log. The kernel keeps `max_entries` in 32 bits. -/
structure Logless (roots : Config) (name : Bytes) (record : MetaRecord) (held : List Digest) (world : World) : Prop
    extends Accepted roots name record world where
  durable : record.hasData = true
  clean : record.logClean = true
  holds : ∃ map kernel, world.pinAt record.pinPath = some map ∧ world.maps[map]? = some kernel ∧
    Matching record kernel.info ∧ kernel.info.maxEntries < 2 ^ 32 ∧ kernel.contents = held
  missing : world.logAt (roots.logPathOf name) = none

/-- In no run does a startup that finds the pin gone serve the filter from a log that
lacks one of these digests. -/
def NeverRebuiltWithout [Libm] (roots : Config) (name : Bytes) (held : List Digest) (world : World) : Prop :=
  ∀ added actions, (∀ action ∈ actions, Retains roots name action) →
    (State.run ⟨world, none, added⟩ actions).daemon = none →
    ∀ env mode pid answers daemon after rest,
      startup env (roots.withMode mode) { (State.run ⟨world, none, added⟩ actions).world with pid } answers =
        .returned (.ok daemon) after rest →
      ∀ filter ∈ daemon.set.items, filter.name = name → filter.metadata.hasData = true →
        (State.run ⟨world, none, added⟩ actions).world.pinAt filter.metadata.pinPath = none →
        ∀ digest ∈ held, digest ∈ (State.run ⟨world, none, added⟩ actions).world.loggedAt (roots.logPathOf name)

theorem Logless.capacity (logless : Logless roots name record held world) :
    record.capacity ≠ 0 ∧ record.capacity < 2 ^ 32 := by
  obtain ⟨_, kernel, _, _, matching, narrow, _⟩ := logless.holds
  rw [matching.maxEntries] at narrow
  exact ⟨logless.toAccepted.ranges.1, narrow⟩

theorem Accepted.listed (accepted : Accepted roots name record world) (rooted : roots.metaRoot ≠ []) :
    metaLeaf name ∈ entriesIn world.files (resolve roots.metaRoot) := by
  obtain ⟨file, present⟩ := accepted.file
  exact mem_entriesIn_metaRoot rooted accepted.valid present

/-- The first startup serves the filter, and leaves an empty log behind. -/
theorem Logless.completes_startup (logless : Logless roots name record held world) (rooted : roots.metaRoot ≠ [])
    (placed : (roots.logPathOf name).length < pathMax) :
    Completes (startup (.alone roots name) (roots.withMode mode))
      (fun result after => (∃ daemon, result = .ok daemon) ∧
      after.fileAt (roots.metaPathOf name) = world.fileAt (roots.metaPathOf name) ∧
      after.logAt (roots.logPathOf name) = some .empty) world := by
  obtain ⟨map, kernel, pin, there, matching, -, -⟩ := logless.holds
  have own : Completes (loadEntry (.alone roots name) (roots.withMode mode) (metaLeaf name) ⟨.init, .zero⟩)
      (fun turn after => turn.1 = .ok () ∧ ∃ filter, turn.2.set.items = [filter] ∧ filter.name = name ∧
        after = world.opened roots name record) world := by
    apply completes_loadEntry_accepted logless.toAccepted (alone_reads roots name) placed
    apply (@completes_openOrRebuild_pinned world _ (roots.loadedMeta name record) map pin).mono
    rintro opened after ⟨rfl, rfl⟩
    apply (completes_admitLoaded_exact logless.valid logless.named ⟨kernel, there, matching⟩).mono
    rintro turn last ⟨succeeded, filter, items, named, _, reached⟩
    exact ⟨succeeded, filter, items, named, reached⟩
  apply (completes_startup_alone logless.valid (logless.toAccepted.listed rooted) own).mono
  rintro result after ⟨daemon, filter, middle, rfl, _, _, rfl, apart⟩
  refine ⟨⟨daemon, rfl⟩, ?_, ?_⟩
  · rw [apart.fileAt logless.valid roots, World.opened, if_pos logless.durable, World.fileAt, openLog_files]
    rfl
  · rw [apart.logAt logless.valid roots, World.opened, if_pos logless.durable, logAt_openLog, logless.missing]
    rfl

/-- A rebuild records the pin path anew. -/
theorem assignFilterPaths_loadedMeta (fits : Fits roots name) (named : record.name = name) :
    assignFilterPaths (roots.withMode mode) (roots.loadedMeta name record) =
      .ok (roots.loadedMeta name { record with pinPath := roots.pinPathOf name }) := by
  subst named
  have own : Fits (roots.withMode mode) (roots.loadedMeta record.name record).name := ⟨fits.file, fits.log, fits.pin⟩
  exact assignFilterPaths_eq own

/-- A startup without the pin serves the filter from its log, however little that holds. -/
theorem completes_startup_rebuilt {log : LogFile} (accepted : Accepted roots name record world)
    (rooted : roots.metaRoot ≠ [])
    (fits : Fits roots name) (durable : record.hasData = true) (clean : record.logClean = true)
    (capacity : record.capacity < 2 ^ 32) (present : world.logAt (roots.logPathOf name) = some log)
    (free : world.pinAt record.pinPath = none) (unused : world.pinAt (roots.pinPathOf name) = none) :
    Completes (startup (.alone roots name) (roots.withMode mode))
      (fun result _ => ∃ daemon filter, result = .ok daemon ∧
      filter ∈ daemon.set.items ∧ filter.name = name ∧ filter.metadata.hasData = true ∧
      filter.metadata.pinPath = roots.pinPathOf name) world := by
  obtain ⟨positive, hashes, valueSize⟩ := accepted.ranges
  let renamed : MetaRecord := { record with pinPath := roots.pinPathOf name }
  have own : Completes (loadEntry (.alone roots name) (roots.withMode mode) (metaLeaf name) ⟨.init, .zero⟩)
      (fun turn _ => turn.1 = .ok () ∧ ∃ filter, turn.2.set.items = [filter] ∧ filter.name = name ∧
        filter.metadata.hasData = true ∧ filter.metadata.pinPath = roots.pinPathOf name) world := by
    apply completes_loadEntry_accepted accepted (alone_reads roots name) fits.log
    have assigned := @assignFilterPaths_loadedMeta roots mode name record fits accepted.named
    apply completes_openOrRebuild_clean free durable clean
    apply (@completes_rebuildFromLog world _ _ _ log assigned ⟨positive, capacity⟩ hashes present unused).mono
    rintro result after ⟨rfl, maps⟩
    have matched : Matched renamed world.maps.length after := by
      rw [Matched, maps]
      exact @matched_created (roots.loadedMeta name renamed) capacity hashes valueSize world.maps _
    apply (@completes_admitLoaded_exact roots name renamed after world.maps.length true accepted.valid accepted.named
      matched).mono
    rintro turn last ⟨succeeded, filter, items, named, ⟨now, same⟩, _⟩
    refine ⟨succeeded, filter, items, named, ?_, ?_⟩
    · rw [same]
      exact durable
    · rw [same]
      rfl
  apply (completes_startup_alone accepted.valid (accepted.listed rooted) own).mono
  rintro result after ⟨daemon, filter, _, rfl, member, named, ⟨data, path⟩, _⟩
  exact ⟨daemon, filter, rfl, member, named, data, path⟩

/-- The reader's line buffer bounds the pin path, and with it the pin root. -/
theorem Accepted.pinFits (accepted : Accepted roots name record world) : (roots.pinPathOf name).length < pathMax := by
  obtain ⟨stored, _, decoded⟩ := accepted.decoded
  have bounded : record.pinPath.length ≤ 1023 := by
    unfold MetaRecord.readBack at decoded
    simp only at decoded
    split at decoded
    · obtain rfl := Option.some.inj decoded
      have line := length_fgets (metaLine "pin_path" stored.pinPath)
      have trimmed := (trimNewline_front (fgets (metaLine "pin_path" stored.pinPath)).1).length_le
      rw [List.length_drop]
      omega
    · cases decoded
  have inside := (prefix_of_pathUnderRoot accepted.under).length_le
  have short := length_of_valid accepted.valid
  have limits : maxNameLen = 63 ∧ pathMax = 4096 := ⟨rfl, rfl⟩
  simp only [Config.pinPathOf, joined, List.length_append, List.length_cons, List.length_nil]
  omega

/-- Only a filter whose log path fits is ever served. -/
theorem placed_of_served {env : Env} {daemon : Daemon} {after : World} {answers rest : List Answer} {filter : Filter}
    (run : startup env roots world answers = .returned (.ok daemon) after rest)
    (member : filter ∈ daemon.set.items) : (roots.logPathOf filter.name).length < pathMax := by
  obtain ⟨readable, record, accepted, available⟩ := wp_startup_loadable.returned run daemon rfl filter member
  have frees : ∀ (set : FilterSet) (failure : Failure) (middle : World),
      wp (do filterSetFree set; pure (.error failure) : Sys (Except Failure Daemon))
        (fun result _ => result ≠ .ok daemon) (fun _ => True) middle := by
    intro set failure middle
    apply wp_bind
    exact (wp_trivial _).mono (fun _ _ _ => (wp_pure _).mpr nofun) fun _ held => held
  rw [startup, bind_apply] at run
  cases loads : loadMetadataDir env roots ⟨.init, .zero⟩ world answers with
  | crashed stopped =>
    rw [loads] at run
    cases run
  | returned result loaded left =>
    rw [loads] at run
    obtain ⟨outcome, loading⟩ := result
    cases outcome with
    | error failure => exact absurd rfl ((frees loading.set failure loaded).returned run)
    | ok done =>
      simp only [bind_apply] at run
      cases cleans : cleanupOrphanPins env roots loading loaded left with
      | crashed stopped =>
        rw [cleans] at run
        cases run
      | returned result last more =>
        have same := wp_cleanupOrphanPins_items.returned cleans
        rw [cleans] at run
        obtain ⟨outcome, later⟩ := result
        cases outcome with
        | error errno => exact absurd rfl ((frees later.set _ last).returned run)
        | ok done =>
          obtain ⟨made, -, -⟩ := Stop.returned.inj run
          obtain rfl := Except.ok.inj made
          have served : loading.set.named filter.name ≠ [] := by
            apply List.ne_nil_of_mem
            exact FilterSet.mem_named.mpr ⟨same ▸ member, rfl⟩
          exact ((loadedFrom_of_run loads).servable _ record served readable accepted available).placed

/-- The restart, the reboot and the restart after it: the map comes back empty. -/
theorem Logless.forgotten [Libm] (logless : Logless roots name record held world) (rooted : roots.metaRoot ≠ [])
    (placed : (roots.logPathOf name).length < pathMax) (never : NeverRebuiltWithout roots name held world) :
    held = [] := by
  let env := Env.alone roots name
  have fits : Fits roots name := ⟨logless.fits, placed, logless.toAccepted.pinFits⟩
  obtain ⟨used, _, after, ⟨⟨daemon, rfl⟩, file, log⟩, first⟩ :=
    (@Logless.completes_startup roots .always name record held world logless rooted placed).run (fun _ => .ok)
      fun _ => trivial
  let actions : List Action :=
    [.restart env (roots.withMode .always) world.pid (supplied (fun _ => .ok) used ++ []), .reboot fun _ => []]
  have retains : ∀ action ∈ actions, Retains roots name action := by
    intro action member
    simp only [actions, List.mem_cons, List.not_mem_nil, or_false] at member
    rcases member with rfl | rfl
    · rfl
    · trivial
  have reached : State.run ⟨world, none, fun _ => []⟩ actions = ⟨after.reboot fun _ => [], none, fun _ => []⟩ := by
    simp only [actions, State.run, List.foldl_cons, List.foldl_nil, State.step]
    rw [first []]
    rfl
  have rebooted : (after.reboot fun _ => []).logAt (roots.logPathOf name) = some .empty := by
    have held : after.logs.lookup (resolve (roots.logPathOf name)) = some .empty := log
    rw [World.logAt, World.reboot, lookup_mapValues, held]
    rfl
  have accepted : Accepted roots name record (after.reboot fun _ => []) := logless.toAccepted.of_file file
  obtain ⟨count, _, last, ⟨final, filter, rfl, member, named, data, path⟩, second⟩ :=
    (@completes_startup_rebuilt roots .always name record (after.reboot fun _ => []) .empty accepted rooted fits
      logless.durable logless.clean logless.capacity.2 rebooted rfl rfl).run (fun _ => .ok) fun _ => trivial
  have complete := never (fun _ => []) actions retains (by rw [reached]) env .always (after.reboot fun _ => []).pid
    (supplied (fun _ => .ok) count ++ []) final last []
  rw [reached] at complete
  have lacking := complete (second []) filter member named data (by rw [path]; rfl)
  rw [World.loggedAt, rebooted] at lacking
  exact List.eq_nil_iff_forall_not_mem.mpr fun digest inside => absurd (lacking digest inside) List.not_mem_nil

/-- Without its log a filter is safe exactly when its map held nothing, or when it
cannot be loaded at all. -/
theorem missing_log_noticed_iff [Libm] (rooted : roots.metaRoot ≠ [])
    (logless : Logless roots name record held world) :
    NeverRebuiltWithout roots name held world ↔ held = [] ∨ pathMax ≤ (roots.logPathOf name).length := by
  constructor
  · intro never
    by_cases placed : (roots.logPathOf name).length < pathMax
    · exact Or.inl (logless.forgotten rooted placed never)
    · exact Or.inr (Nat.not_lt.mp placed)
  · rintro (rfl | long)
    · intro _ _ _ _ _ _ _ _ _ _ _ _ _ _ _ _ _ digest inside
      exact absurd inside List.not_mem_nil
    · intro added actions _ _ env mode pid answers daemon after rest run filter member named _ _ _ _
      have placed := @placed_of_served (roots.withMode mode) _ env daemon after answers rest filter run member
      rw [named] at placed
      exact absurd placed (Nat.not_lt.mpr long)

end Logless

/-- A filter with its metadata and its pinned map, whose log was removed -/
def loglessWorld (held : List Digest) : World :=
  ((World.empty.setFile (bytes "/m/x.meta") (some (unpinnedRecord true))).addMap ⟨createdMapInfo 100 3, held⟩).setPin
    (bytes "/p/x") 0

theorem logless_loglessWorld (held : List Digest) :
    Logless demoRoots demoName (unpinnedRecord true) held (loglessWorld held) where
  valid := by decide
  fits := by decide
  decoded := ⟨unpinnedRecord true, rfl, by decide⟩
  named := rfl
  under := by decide
  pinned := by decide
  durable := rfl
  clean := rfl
  holds := ⟨0, ⟨createdMapInfo 100 3, held⟩, rfl, rfl, matching_created (by decide) (by decide) rfl,
    (by decide : (createdMapInfo 100 3).maxEntries < 2 ^ 32), rfl⟩
  missing := rfl

/-- One startup, and a reboot that takes the pins -/
def loglessRun : List Action := [.restart .plain demoRoots 7 plenty, .reboot fun _ => []]

/-- The digest that the pinned map held is gone after the second startup, which serves
the filter with the clean flag set. -/
theorem missing_log_forgets :
    Logless demoRoots demoName (unpinnedRecord true) [digestPayload (bytes "a")]
      (loglessWorld [digestPayload (bytes "a")]) ∧
    ((startup .plain demoRoots
      (@State.run exactLibm ⟨loglessWorld [digestPayload (bytes "a")], none, fun _ => []⟩ loglessRun).world
        plenty).value.map fun result => result.toOption.map fun daemon => daemon.set.items.map fun filter =>
          (filter.name, filter.metadata.hasData, filter.metadata.logClean)) = some (some [(demoName, true, true)]) ∧
    (@State.run exactLibm ⟨loglessWorld [digestPayload (bytes "a")], none, fun _ => []⟩ loglessRun).world.loggedAt
      (demoRoots.logPathOf demoName) = [] ∧
    ¬ @NeverRebuiltWithout exactLibm demoRoots demoName [digestPayload (bytes "a")]
      (loglessWorld [digestPayload (bytes "a")]) := by
  refine ⟨logless_loglessWorld _, by decide +kernel, by decide +kernel, fun never => ?_⟩
  exact List.cons_ne_nil _ _ (@Logless.forgotten demoRoots demoName _ _ _ exactLibm
    (logless_loglessWorld _) (by decide) (by decide) never)

theorem missing_log_noticed_empty : @NeverRebuiltWithout exactLibm demoRoots demoName [] (loglessWorld []) :=
  (@missing_log_noticed_iff demoRoots demoName _ _ _ exactLibm (by decide) (logless_loglessWorld [])).mpr (Or.inl rfl)

end Bloomd
