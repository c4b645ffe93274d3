import Bloomd.FilterLimit
import Bloomd.ForcedSync
import Bloomd.StartupDamage

/-! A restart with another spelling of the pin root. The loader compares the recorded
pin path with the root as text, so a root with one slash more at its end is not the
root that the files were written under, although it names the same directory. -/

namespace Bloomd

open CrashLogic Prog

/-- The same directory as before, spelled with one slash more or less at its end -/
inductive Respelled (root : Bytes) : Bytes → Prop where
  | same : Respelled root root
  | longer : Respelled root (root ++ [slash])
  | shorter (front : Bytes) (rooted : front ≠ []) (cut : root = front ++ [slash]) : Respelled root front

def Config.withPinRoot (roots : Config) (pinRoot : Bytes) : Config := { roots with pinRoot }

section Paths

variable {root other name : Bytes}

theorem resolve_append_slash (rooted : root ≠ []) : resolve (root ++ [slash]) = resolve root := by
  have split : (root ++ [slash]).splitOn slash = root.splitOn slash ++ [[]] :=
    List.splitOn_append_cons_self root []
  simp only [resolve, split, List.foldl_append]
  cases root with
  | nil => exact absurd rfl rooted
  | cons first rest => simp [enter]

theorem Respelled.resolve (respelled : Respelled root other) (rooted : root ≠ []) :
    Bloomd.resolve other = Bloomd.resolve root := by
  cases respelled with
  | same => rfl
  | longer => exact resolve_append_slash rooted
  | shorter _ nonempty cut =>
    rw [cut]
    exact (resolve_append_slash nonempty).symm

theorem pathUnderRoot_append {next : UInt8} {rest : Bytes} :
    pathUnderRoot (root ++ next :: rest) root = true ↔ next = slash := by
  have inside : (root ++ next :: rest)[root.length]? = some next := by simp
  rw [pathUnderRoot, inside]
  simp

/-- A recorded pin path is under every spelling of the root but the longer one. -/
theorem Respelled.under_iff (respelled : Respelled root other) (valid : nameIsValid name = true) :
    pathUnderRoot (joined root name []) other = true ↔ other ≠ root ++ [slash] := by
  cases respelled with
  | same =>
    have different : root ≠ root ++ [slash] := by simp
    rw [joined, pathUnderRoot_append]
    exact ⟨fun _ => different, fun _ => rfl⟩
  | shorter _ _ cut =>
    have different : other ≠ root ++ [slash] := by
      intro same
      have lengths := congrArg List.length same
      rw [cut] at lengths
      simp at lengths
    rw [joined, cut, List.append_assoc, List.singleton_append, pathUnderRoot_append]
    exact ⟨fun _ => cut ▸ different, fun _ => rfl⟩
  | longer =>
    constructor
    · intro under
      cases name with
      | nil => exact absurd rfl (nonempty_of_valid valid)
      | cons first rest =>
        have path : joined root (first :: rest) [] = (root ++ [slash]) ++ first :: rest := by simp [joined]
        rw [path, pathUnderRoot_append] at under
        have inside : slash ∈ first :: rest := under ▸ List.mem_cons_self
        exact absurd inside (not_mem_of_valid valid (by decide))
    · exact fun different => absurd rfl different

end Paths

section Restart

variable {env : Env} {roots : Config} {mode : LogSyncMode} {name pinRoot path : Bytes} {record : MetaRecord}
  {world : World} {file : Option (Option MetaRecord)}

/-- The end of a turn for a name that is not in the set touches no metadata file. -/
theorem wp_admitLoaded_file {loading : Loading} {metadata : FilterMeta} {map : Nat} {unpinOnError : Bool}
    (unfound : (loading.set.findN metadata.name).1 = none) (held : world.fileAt path = file) (entry : Bytes) :
    wp (admitLoaded loading entry metadata map unpinOnError) (fun _ after => after.fileAt path = file)
      (fun after => after.fileAt path = file) world := by
  have cleans : ∀ {α : Type} (result : α) (middle : World), middle.fileAt path = file →
      wp (do
          cleanupEntry metadata unpinOnError
          pure result : Sys α)
        (fun _ after => after.fileAt path = file) (fun after => after.fileAt path = file) middle := by
    intro α result middle kept
    apply wp_bind
    unfold cleanupEntry
    split
    · apply wp_bind
      apply (@wp_bpfUnpin _ _ (fun after : World => after.fileAt path = file) kept kept).mono _ fun _ safe => safe
      exact fun _ after kept => (wp_pure _).mpr ((wp_pure _).mpr kept)
    · exact (wp_pure _).mpr ((wp_pure _).mpr kept)
  apply wp_bind
  apply (wp_validateOpenPinnedMap metadata map world).mono
  swap
  · rintro after rfl
    exact held
  · rintro checked after ⟨rfl, -⟩
    cases checked with
    | error failure => exact cleans _ after held
    | ok done =>
      simp only [unfound, Option.isSome_none, Bool.false_eq_true, ↓reduceIte]
      have opens : wp (openLoadedLog (loadedFilter metadata map)) (fun _ after => after.fileAt path = file)
          (fun after => after.fileAt path = file) after := by
        unfold openLoadedLog
        split
        · apply wp_bind
          apply wp_logOpenAppend held
          · exact fun errno _ => (wp_pure _).mpr held
          · have opened : (after.openLog (loadedFilter metadata map).metadata.logPath).fileAt path = file := by
              rw [World.fileAt, openLog_files]
              exact held
            apply wp_bind
            exact (wp_call _).mpr ⟨opened, fun answer => (wp_pure _).mpr opened⟩
        · exact (wp_pure _).mpr held
      apply wp_bind
      apply opens.mono _ fun _ safe => safe
      rintro ⟨opened, filter⟩ middle kept
      cases opened with
      | error failure => exact cleans _ middle kept
      | ok done =>
        apply wp_bind
        apply (wp_filterSetAdd _ filter middle).mono
        swap
        · rintro last rfl
          exact kept
        · rintro added last ⟨rfl, -⟩
          cases added with
          | error errno => exact cleans _ last kept
          | ok set => exact (wp_pure _).mpr kept

/-- The search for the map of a record whose pin path leads to the place of its pin: a
record with data and a log is never stale. -/
theorem wp_openOrRebuild_logged {config : Config} {metadata : FilterMeta} (placed : Placed config metadata)
    (leads : resolve metadata.pinPath = resolve (config.pinPathOf metadata.name))
    (logged : metadata.hasData = true → ∃ log, (world.view config metadata.name).log = some log) :
    wp (openOrRebuild config metadata)
      (fun opened after => opened ≠ .stale ∧
        (∀ found map unpinOnError, opened = .map found map unpinOnError → found.name = metadata.name) ∧
        (after.view config metadata.name).file = (world.view config metadata.name).file)
      (fun after => (after.view config metadata.name).file = (world.view config metadata.name).file) world := by
  have taken : ∀ {other : FilterMeta} {map : Nat} {flag : Bool}, other.name = metadata.name →
      ∀ found number unpinOnError, Opened.map other map flag = .map found number unpinOnError →
        found.name = metadata.name := by
    intro other map flag named found number unpinOnError same
    obtain ⟨rfl, -, -⟩ := Opened.map.inj same
    exact named
  have failing : ∀ failure : Failure, Opened.failed failure ≠ .stale ∧ ∀ found map unpinOnError,
      Opened.failed failure = .map found map unpinOnError → found.name = metadata.name :=
    fun failure => ⟨Opened.noConfusion, fun _ _ _ => Opened.noConfusion⟩
  refine wp_bind (wp_attempt rfl ?_ ?_)
  · intro errno transient
    simp only [transient.ne_enoent, ↓reduceIte]
    exact (wp_pure _).mpr ⟨(failing _).1, (failing _).2, rfl⟩
  · cases there : world.pinAt metadata.pinPath with
    | some map => exact (wp_pure _).mpr ⟨Opened.noConfusion, taken rfl, rfl⟩
    | none =>
      simp only [↓reduceIte]
      split
      · refine wp_bind ((wp_bpfCreateMap metadata.capacity metadata.hashes world).mono ?_ ?_)
        · intro created after creates
          cases creates with
          | refused failure => exact (wp_pure _).mpr ⟨(failing _).1, (failing _).2, rfl⟩
          | made => exact (wp_pure _).mpr ⟨Opened.noConfusion, taken rfl, rfl⟩
        · rintro after rfl
          rfl
      · rename_i hasData
        obtain ⟨log, present⟩ := logged (by simpa using hasData)
        split
        · exact (wp_pure _).mpr ⟨(failing _).1, (failing _).2, rfl⟩
        · -- The rebuild writes the pin path anew, from the root as it is spelled now.
          let renamed : FilterMeta := { metadata with pinPath := config.pinPathOf metadata.name }
          have own : Placed config renamed :=
            ⟨placed.valid, placed.file, placed.log, leaf_pinPathOf config placed.valid⟩
          have free : (world.view config renamed.name).pin = none := by
            have seen : world.pinAt (config.pinPathOf metadata.name) = world.pinAt metadata.pinPath := by
              rw [World.pinAt, World.pinAt, leads]
            exact seen.trans there
          have same : rebuildFromLog config metadata = rebuildFromLog config renamed := rfl
          rw [same]
          apply wp_bind
          apply (@wp_rebuildFromLog_view world config renamed log own rfl present).mono
          · intro result after held
            generalize viewed : after.view config renamed.name = seen at held
            have viewed : after.view config metadata.name = seen := viewed
            cases held with
            | rebuilt log' trimmed =>
              refine (wp_pure _).mpr ⟨Opened.noConfusion, taken rfl, ?_⟩
              rw [viewed]
            | failed failure other log' trimmed maps =>
              simp only [other, ↓reduceIte]
              refine (wp_pure _).mpr ⟨(failing _).1, (failing _).2, ?_⟩
              rw [viewed]
          · intro after held
            change (after.view config renamed.name).file = _
            generalize after.view config renamed.name = seen at held
            cases held with
            | replaying log' trimmed maps => rfl

/-- A metadata file that is accepted and whose log is there when it has data keeps its
name in a startup that can read it. -/
structure Lasting (roots : Config) (name : Bytes) (record : MetaRecord) (world : World) : Prop
    extends Accepted roots name record world where
  leads : resolve record.pinPath = resolve (roots.pinPathOf name)
  logged : record.hasData = true → ∃ log, world.logAt (roots.logPathOf name) = some log

theorem Lasting.apart {later : World} (lasting : Lasting roots name record world) (apart : Apart name world later) :
    Lasting roots name record later :=
  { lasting with
    decoded := (lasting.toAccepted.of_file (apart.fileAt lasting.valid roots)).decoded
    logged := fun data => by
      rw [apart.logAt lasting.valid roots]
      exact lasting.logged data }

theorem Lasting.turn (lasting : Lasting roots name record world) (readable : env.reads (roots.metaPathOf name) = .ok) :
    Turn env roots mode name
      (fun later => Lasting roots name record later ∧
        later.fileAt (roots.metaPathOf name) = world.fileAt (roots.metaPathOf name))
      (fun _ later => later.fileAt (roots.metaPathOf name) = world.fileAt (roots.metaPathOf name))
      (fun later => later.fileAt (roots.metaPathOf name) = world.fileAt (roots.metaPathOf name)) where
  valid := lasting.valid
  fits := lasting.fits
  before_apart apart held := ⟨held.1.apart apart, (apart.fileAt lasting.valid roots).trans held.2⟩
  after_apart apart held := (apart.fileAt lasting.valid roots).trans held
  crash_apart apart held := (apart.fileAt lasting.valid roots).trans held
  crash_changeLog path change held := by
    rw [World.fileAt, World.changeLog_files]
    exact held
  begins held := held.2
  ends held := held
  turn {loading later} held missing valids := by
    obtain ⟨still, same⟩ := held
    have whole : ∀ {result : Except Failure Unit × Loading} {last : World},
        last.fileAt (roots.metaPathOf name) = world.fileAt (roots.metaPathOf name) →
        last.fileAt (roots.metaPathOf name) = world.fileAt (roots.metaPathOf name) ∧ (result.1 = .ok () →
          last.fileAt (roots.metaPathOf name) = world.fileAt (roots.metaPathOf name)) :=
      fun kept => ⟨kept, fun _ => kept⟩
    apply wp_loadRecord_accepted still.toAccepted readable same
    · exact fun failure => whole same
    · intro _
      have placed : Placed (roots.withMode mode) (roots.loadedMeta name record) := by
        have own : nameIsValid (roots.loadedMeta name record).name = true := still.named ▸ still.valid
        have leaf : (resolve record.pinPath).leaf = record.name := still.toAccepted.leaf.trans still.named.symm
        refine ⟨own, ?_, ?_, leaf⟩
        · change roots.metaPathOf name = roots.metaPathOf record.name
          rw [still.named]
        · change roots.logPathOf name = roots.logPathOf record.name
          rw [still.named]
      have named : (roots.loadedMeta name record).name = name := still.named
      have leads : resolve (roots.loadedMeta name record).pinPath =
          resolve ((roots.withMode mode).pinPathOf (roots.loadedMeta name record).name) := by
        rw [named]
        exact still.leads
      have logged : (roots.loadedMeta name record).hasData = true →
          ∃ log, (later.view (roots.withMode mode) (roots.loadedMeta name record).name).log = some log := by
        rw [named]
        exact still.logged
      have opens := wp_openOrRebuild_logged placed leads logged
      rw [named] at opens
      apply opens.mono
      · rintro opened after ⟨fresh, taken, kept⟩
        have kept : after.fileAt (roots.metaPathOf name) = world.fileAt (roots.metaPathOf name) := kept.trans same
        cases opened with
        | stale => exact absurd rfl fresh
        | failed failure => exact (wp_pure _).mpr (whole kept)
        | map found map unpinOnError =>
          have unfound : (loading.set.findN found.name).1 = none := by
            rw [taken found map unpinOnError rfl]
            exact FilterSet.findN_of_named valids still.valid missing
          exact (wp_admitLoaded_file unfound kept _).mono (fun _ _ held => whole held) fun _ held => held
      · exact fun after kept => kept.trans same

theorem Lasting.keeps_file (lasting : Lasting roots name record world)
    (readable : env.reads (roots.metaPathOf name) = .ok) (answers : List Answer) :
    (startup env (roots.withMode mode) world answers).state.fileAt (roots.metaPathOf name) =
      world.fileAt (roots.metaPathOf name) := by
  have keeps : ∀ {middle : World} path change,
      middle.fileAt (roots.metaPathOf name) = world.fileAt (roots.metaPathOf name) →
      (middle.changeLog path change).fileAt (roots.metaPathOf name) = world.fileAt (roots.metaPathOf name) := by
    intro middle path change kept
    rw [World.fileAt, World.changeLog_files]
    exact kept
  have cleans : ∀ entries (loading : Loading) (middle : World),
      middle.fileAt (roots.metaPathOf name) = world.fileAt (roots.metaPathOf name) →
      wp (cleanupPins (roots.withMode mode) entries loading)
        (fun later last => later.set.items = loading.set.items ∧
          last.fileAt (roots.metaPathOf name) = world.fileAt (roots.metaPathOf name))
        (fun last => last.fileAt (roots.metaPathOf name) = world.fileAt (roots.metaPathOf name)) middle := by
    intro entries loading middle kept
    exact ((wp_cleanupPins_items _ entries loading middle).and (wp_cleanupPins_files entries loading middle kept)).mono
      (fun _ _ held => held) fun _ held => held.2
  by_cases listed : metaLeaf name ∈ env.metaListing roots world
  · have spec := (@Lasting.turn env roots mode name record world lasting readable).wp_startup_cleaned listed
      ⟨lasting, rfl⟩ fun entries loading middle _ => cleans entries loading middle
    exact (spec.mono (fun _ _ held => held.1) fun _ held => held).stops answers
  · have spec := @wp_startup_unlisted env roots mode name
      (fun last => last.fileAt (roots.metaPathOf name) = world.fileAt (roots.metaPathOf name)) world listed rfl
      (fun apart kept => (apart.fileAt lasting.valid roots).trans kept) keeps cleans
    exact (spec.mono (fun _ _ held => held.1) fun _ held => held).stops answers

/-- A restart accepts the metadata file of a filter, and neither renames it nor unlinks
its pin when it can read it. A pin survives only if the whole directory was listed. -/
structure SurvivesRestart (roots : Config) (name : Bytes) (record : MetaRecord) (world : World) : Prop where
  accepted : Accepted roots name record world
  file : ∀ env mode pid answers, env.reads (roots.metaPathOf name) = .ok →
    (startup env (roots.withMode mode) { world with pid } answers).state.fileAt (roots.metaPathOf name) =
      world.fileAt (roots.metaPathOf name)
  pin : ∀ env mode pid answers map, env.reads (roots.metaPathOf name) = .ok → env.filesCut = none →
    world.pinAt record.pinPath = some map →
    (startup env (roots.withMode mode) { world with pid } answers).state.pinAt record.pinPath = some map

theorem Lasting.survivesRestart (lasting : Lasting roots name record world) (rooted : roots.Rooted) :
    SurvivesRestart roots name record world where
  accepted := lasting.toAccepted
  file env mode pid answers readable := by
    have again : Lasting roots name record { world with pid } :=
      { lasting with decoded := lasting.decoded, logged := lasting.logged }
    exact again.keeps_file readable answers
  pin env mode pid answers map readable whole pinned := by
    have healthy : Healthy roots name record map { world with pid } :=
      { lasting.toAccepted with decoded := lasting.decoded, pin := pinned }
    have listed := (env.mem_metaListing whole).mpr (healthy.present rooted)
    exact (healthy.spared_readable listed readable answers).pin

theorem newline_pinPathOf (valid : nameIsValid name = true) : 10 ∈ roots.pinPathOf name ↔ 10 ∈ roots.pinRoot := by
  have plain : 10 ∉ name := not_mem_of_valid valid (by decide)
  simp [Config.pinPathOf, joined, slash, plain]

/-- The record of a stopped daemon's filter is one that the daemon wrote. -/
theorem stored_of_run [Libm] {actions : List Action} (rooted : ∀ action ∈ actions, action.KeepsRoots roots)
    (stopped : (State.initial.run actions).daemon = none) (valid : nameIsValid name = true)
    (present : (State.initial.run actions).world.fileAt (roots.metaPathOf name) = some (some record)) :
    Stored roots name record ((State.initial.run actions).world.view roots name) := by
  have tidy := (tidy_initial (historyUpkeep roots none)).run
    (permitted_of_rooted (fun _ _ _ aimed => nomatch aimed) (fun _ => trivial) rooted)
  unfold Tidy at tidy
  rw [stopped] at tidy
  exact (tidy name valid valid record present).1

/-- After any run with a pin root, a restart with a spelling of that root keeps a filter if
and only if the spelling is not the one with a slash more, and the recorded error rate and
pin path are read back. -/
theorem respelled_restart_iff [Libm] {actions : List Action} (nonempty : roots.Rooted)
    (rooted : ∀ action ∈ actions, action.KeepsRoots roots) (stopped : (State.initial.run actions).daemon = none)
    (respelled : Respelled roots.pinRoot pinRoot) (valid : nameIsValid name = true)
    (present : (State.initial.run actions).world.fileAt (roots.metaPathOf name) = some (some record)) :
    SurvivesRestart (roots.withPinRoot pinRoot) name record (State.initial.run actions).world ↔
      pinRoot ≠ roots.pinRoot ++ [slash] ∧ rateIsNormal record.errorRate = true ∧
        (roots.pinPathOf name).length ≤ 1014 ∧ 10 ∉ roots.pinRoot := by
  have stored := stored_of_run rooted stopped valid present
  have pinPath := stored.proper.pinPath
  have reads := readBack_eq_self_iff stored.proper.passes valid pinPath
  have under := respelled.under_iff valid
  rw [pinPath, newline_pinPathOf valid] at reads
  constructor
  · intro survives
    obtain ⟨other, found, decoded⟩ := survives.accepted.decoded
    obtain rfl : other = record := Option.some.inj (Option.some.inj (found.symm.trans present))
    have accepted : pathUnderRoot other.pinPath pinRoot = true := survives.accepted.under
    rw [pinPath] at accepted
    exact ⟨under.mp accepted, reads.mp decoded⟩
  · rintro ⟨different, readable⟩
    have filled : pinRoot ≠ [] := by
      cases respelled with
      | same => exact nonempty.pinRoot
      | longer => exact absurd rfl different
      | shorter _ filled _ => exact filled
    have fits := stored.proper.fits
    have component := component_of_valid valid [] (by decide)
    have leads : resolve (roots.pinPathOf name) = resolve ((roots.withPinRoot pinRoot).pinPathOf name) := by
      change resolve (joined roots.pinRoot name []) = resolve (joined pinRoot name [])
      rw [resolve_joined _ _ _ nonempty.pinRoot component, resolve_joined _ _ _ filled component,
        respelled.resolve nonempty.pinRoot]
    have lasting : Lasting (roots.withPinRoot pinRoot) name record (State.initial.run actions).world := by
      constructor
      · refine ⟨valid, fits.file, ⟨record, present, reads.mpr readable⟩, stored.proper.named, ?_, ?_⟩
        · rw [pinPath]
          exact under.mpr different
        · rw [pinPath]
          exact pathHasName_pinPathOf roots valid
      · rw [pinPath]
        exact leads
      · exact stored.logged
    exact lasting.survivesRestart ⟨nonempty.metaRoot, filled⟩

end Restart

/-- A filter with one digest, and a daemon that was killed -/
def haltedRun : List Action :=
  [.restart .plain demoRoots 7 plenty, .request demoCreate plenty, .request (.add demoName (bytes "a")) plenty, .kill]

theorem haltedRun_rooted : ∀ action ∈ haltedRun, action.KeepsRoots demoRoots := by
  intro action member
  simp only [haltedRun, List.mem_cons, List.not_mem_nil, or_false] at member
  rcases member with rfl | rfl | rfl | rfl
  · rfl
  · trivial
  · trivial
  · trivial

theorem haltedRun_record : ∃ record,
    (@State.run exactLibm .initial haltedRun).world.fileAt (demoRoots.metaPathOf demoName) = some (some record) ∧
      rateIsNormal record.errorRate = true := by
  have written : ((@State.run exactLibm .initial haltedRun).world.fileAt (demoRoots.metaPathOf demoName)).join.any
      (fun record => rateIsNormal record.errorRate) = true := by decide +kernel
  obtain ⟨record, present, normal⟩ := (Option.any_eq_true _ _).mp written
  exact ⟨record, Option.join_eq_some_iff.mp present, normal⟩

/-- The root `/p` becomes `/p/`: the metadata is set aside and the pin unlinked. -/
theorem respelled_restart_quarantines : Respelled demoRoots.pinRoot (bytes "/p/") ∧
    (@State.run exactLibm .initial haltedRun).daemon.isNone = true ∧
    (startup .plain (demoRoots.withPinRoot (bytes "/p/")) (@State.run exactLibm .initial haltedRun).world
      plenty).state.fileAt (demoRoots.metaPathOf demoName) = none ∧
    (@State.run exactLibm .initial haltedRun).world.pinAt (bytes "/p/x") ≠ none ∧
    (startup .plain (demoRoots.withPinRoot (bytes "/p/")) (@State.run exactLibm .initial haltedRun).world
      plenty).state.pinAt (bytes "/p/x") = none ∧
    ∃ record,
      (@State.run exactLibm .initial haltedRun).world.fileAt (demoRoots.metaPathOf demoName) = some (some record) ∧
      ¬ SurvivesRestart (demoRoots.withPinRoot (bytes "/p/")) demoName record
        (@State.run exactLibm .initial haltedRun).world := by
  obtain ⟨record, present, -⟩ := haltedRun_record
  refine ⟨.longer, by decide +kernel, by decide +kernel, by decide +kernel, by decide +kernel, record, present, ?_⟩
  intro survives
  obtain ⟨other, found, -⟩ := survives.accepted.decoded
  obtain rfl : other = record := Option.some.inj (Option.some.inj (found.symm.trans present))
  have recorded : ((@State.run exactLibm .initial haltedRun).world.fileAt (demoRoots.metaPathOf demoName)).map
      (Option.map MetaRecord.pinPath) = some (some (bytes "/p/x")) := by decide +kernel
  rw [present] at recorded
  have pinPath : other.pinPath = bytes "/p/x" := Option.some.inj (Option.some.inj recorded)
  have under := survives.accepted.under
  rw [pinPath] at under
  exact absurd under (by decide)

theorem same_root_restart_survives : ∃ record,
    (@State.run exactLibm .initial haltedRun).world.fileAt (demoRoots.metaPathOf demoName) = some (some record) ∧
    SurvivesRestart demoRoots demoName record (@State.run exactLibm .initial haltedRun).world := by
  obtain ⟨record, present, normal⟩ := haltedRun_record
  have stopped : (@State.run exactLibm .initial haltedRun).daemon = none :=
    Option.isNone_iff_eq_none.mp (by decide +kernel)
  refine ⟨record, present, ?_⟩
  apply (@respelled_restart_iff demoRoots demoName demoRoots.pinRoot record exactLibm haltedRun ⟨by decide, by decide⟩
    haltedRun_rooted stopped .same (by decide) present).mpr
  exact ⟨by decide, normal, by decide, by decide⟩

end Bloomd
