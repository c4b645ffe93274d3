import Bloomd.LoadSuccess

/-! Recovery as a whole: startups that fail or are killed anywhere, tried again and again,
leave the filters on disk what they were, and the one that comes up serves exactly them. -/

namespace Bloomd

open CrashLogic Prog

/-- A startup serves what the disk means, whatever its calls meet; and no name means
anything else after it, also where it failed or was cut short. Without faults it fails if
and only if some name is refused. -/
theorem startup_serves_meaning {env : Env} {config : Config} {world : World} (legible : Legible env config world)
    (rooted : config.metaRoot ≠ []) :
    wp (startup env config)
      (fun result after => (∀ name, nameIsValid name = true → after.meaning config name = world.meaning config name) ∧
        ∀ daemon, result = .ok daemon → ∀ name, nameIsValid name = true →
          after.served daemon.set.items name = (world.meaning config name).served)
      (fun after => ∀ name, nameIsValid name = true → after.meaning config name = world.meaning config name) world ∧
    Completes (startup env config) (fun result _ => (∃ daemon, result = .ok daemon) ↔
      ∀ name, nameIsValid name = true → world.meaning config name ≠ .refused) world := by
  refine ⟨(wp_startup_agreeing legible rooted).mono ?_ ?_, completes_startup_loadable legible rooted⟩
  · rintro result after ⟨kept, agreeing⟩
    refine ⟨fun name valid => (kept.steady name valid).meaning, ?_⟩
    intro daemon comesUp name valid
    exact (agreeing daemon comesUp).2.served name valid
  · exact fun after kept name valid => (kept.steady name valid).meaning

/-- A disk that a daemon with these roots can take over -/
structure Recoverable (roots : Config) (world : World) : Prop where
  homed : ∀ name, nameIsValid name = true → Homed roots name world
  sound : world.Sound

theorem recoverable_rebuildableWorld : Recoverable demoRoots rebuildableWorld := by
  constructor
  · intro name _ record accepted
    have own : Accepted demoRoots demoName (unpinnedRecord true) rebuildableWorld :=
      ⟨by decide, by decide, ⟨unpinnedRecord true, by decide, by decide⟩, rfl, by decide, by decide⟩
    obtain ⟨file, present⟩ := accepted.file
    have listed := mem_entriesIn_metaRoot (by decide) accepted.valid present
    rw [show entriesIn rebuildableWorld.files (resolve demoRoots.metaRoot) = [metaLeaf demoName] by decide] at listed
    obtain rfl := metaLeaf_injective (List.mem_singleton.mp listed)
    obtain rfl := accepted.unique own
    decide
  · have sound : (World.empty.addMap ⟨createdMapInfo 100 3, []⟩).Sound := by
      intro loc map there
      cases there
    exact @World.Sound.setPin (bytes "/p/y") (World.empty.addMap ⟨createdMapInfo 100 3, []⟩) 0 sound (by decide)

theorem startup_serves_meaning_rebuildable :
    rebuildableWorld.meaning demoRoots demoName = .filter (demoRoots.serves demoName (unpinnedRecord true)
      ⟨createdMapInfo 100 3, [⟨List.replicate 16 7, rfl⟩]⟩) ∧
    Completes (startup .plain demoRoots) (fun result _ => (∃ daemon, result = .ok daemon) ↔
      ∀ name, nameIsValid name = true → rebuildableWorld.meaning demoRoots name ≠ .refused) rebuildableWorld := by
  constructor
  · rfl
  · have legible : Legible .plain demoRoots rebuildableWorld :=
      ⟨⟨rfl, fun _ _ => rfl⟩, recoverable_rebuildableWorld.homed, recoverable_rebuildableWorld.sound⟩
    exact (startup_serves_meaning legible (by decide)).2

/-- An attempt to start the daemon that can list and read the metadata files, or its end by a kill -/
inductive Recovering (roots : Config) : Action → Prop where
  | restart (env : Env) (mode : LogSyncMode) (pid : Nat) (answers : List Answer) (sees : env.SeesAll roots) :
      Recovering roots (.restart env (roots.withMode mode) pid answers)
  | kill : Recovering roots .kill

section Recovery

variable {roots : Config} {begun world : World} {name : Bytes}

theorem Conserved.ofMode {mode : LogSyncMode} (kept : Conserved (roots.withMode mode) begun world) :
    Conserved roots begun world :=
  ⟨kept.widened, fun name valid =>
    ⟨kept.widened, (kept.steady name valid).meaning, (kept.steady name valid).file⟩⟩

theorem Conserved.started (sound : world.Sound) (pid : Nat) : Conserved roots world { world with pid } :=
  ⟨⟨List.prefix_refl _, sound⟩, fun _ _ => ⟨⟨List.prefix_refl _, sound⟩, rfl, Or.inl rfl⟩⟩

theorem Recoverable.later (recoverable : Recoverable roots begun) (kept : Conserved roots begun world) :
    Recoverable roots world :=
  ⟨fun name valid => (kept.steady name valid).homed (recoverable.homed name valid), kept.widened.sound⟩

theorem Recoverable.legible (recoverable : Recoverable roots world) {env : Env} (sees : env.SeesAll roots)
    (mode : LogSyncMode) (pid : Nat) : Legible env (roots.withMode mode) { world with pid } := by
  refine ⟨⟨sees.listed, sees.reads⟩, ?_, recoverable.sound⟩
  intro name valid record accepted
  exact recoverable.homed name valid record
    ⟨accepted.valid, accepted.fits, accepted.decoded, accepted.named, accepted.under, accepted.pinned⟩

/-- What every state of a recovery keeps -/
structure Recovered (roots : Config) (begun : World) (state : State) : Prop where
  kept : Conserved roots begun state.world
  served : ∀ daemon, state.daemon = some daemon → ∀ name, nameIsValid name = true →
    state.world.served daemon.set.items name = (begun.meaning roots name).served

theorem Recovered.step [Libm] (recoverable : Recoverable roots begun) (rooted : roots.metaRoot ≠ []) {state : State}
    (recovered : Recovered roots begun state) {action : Action} (recovering : Recovering roots action) :
    Recovered roots begun (state.step action) := by
  cases recovering with
  | kill =>
    refine ⟨recovered.kept, ?_⟩
    intro daemon impossible
    cases impossible
  | restart env mode pid answers sees =>
    cases running : state.daemon with
    | some daemon =>
      rw [show state.step (.restart env (roots.withMode mode) pid answers) = state by simp [State.step, running]]
      exact recovered
    | none =>
      have begins := recovered.kept.trans (Conserved.started recovered.kept.widened.sound pid)
      have legible := (recoverable.later recovered.kept).legible sees mode pid
      have spec := wp_startup_agreeing legible rooted
      simp only [State.step, running]
      cases run : startup env (roots.withMode mode) { state.world with pid } answers with
      | crashed after =>
        refine ⟨begins.trans (spec.crashed run).ofMode, ?_⟩
        intro daemon impossible
        cases impossible
      | returned result after rest =>
        obtain ⟨kept, agreeing⟩ := spec.returned run
        refine ⟨begins.trans kept.ofMode, ?_⟩
        intro daemon up name valid
        cases result with
        | error failure => cases up
        | ok daemon' =>
          obtain rfl := Option.some.inj up
          have served := (agreeing daemon' rfl).2.served name valid
          exact served.trans (congrArg Meaning.served (begins.steady name valid).meaning)

theorem Recovered.run [Libm] (recoverable : Recoverable roots begun) (rooted : roots.metaRoot ≠ [])
    (actions : List Action) :
    ∀ state : State, Recovered roots begun state → (∀ action ∈ actions, Recovering roots action) →
      Recovered roots begun (state.run actions) := by
  induction actions with
  | nil => exact fun state recovered _ => recovered
  | cons action rest ih =>
    intro state recovered recovering
    apply ih (state.step action)
    · exact recovered.step recoverable rooted (recovering action List.mem_cons_self)
    · exact fun other member => recovering other (List.mem_cons_of_mem _ member)

end Recovery

/-- However often a startup was tried before, the next one finds what the first one found. -/
theorem recovery_idempotent [Libm] {roots : Config} {state : State} {actions : List Action}
    (recoverable : Recoverable roots state.world) (rooted : roots.metaRoot ≠ []) (stopped : state.daemon = none)
    (recovering : ∀ action ∈ actions, Recovering roots action) :
    (∀ name, nameIsValid name = true →
      (state.run actions).world.meaning roots name = state.world.meaning roots name) ∧
    (∀ daemon, (state.run actions).daemon = some daemon → ∀ name, nameIsValid name = true →
      (state.run actions).world.served daemon.set.items name = (state.world.meaning roots name).served) ∧
    ∀ env mode pid, env.SeesAll roots →
      Completes (startup env (roots.withMode mode))
        (fun result after =>
          ((∃ daemon, result = .ok daemon) ↔
            ∀ name, nameIsValid name = true → state.world.meaning roots name ≠ .refused) ∧
          ∀ daemon, result = .ok daemon → ∀ name, nameIsValid name = true →
            after.served daemon.set.items name = (state.world.meaning roots name).served)
        { (state.run actions).world with pid } := by
  have start : Recovered roots state.world state := by
    refine ⟨.refl recoverable.sound, ?_⟩
    intro daemon running
    rw [stopped] at running
    cases running
  have recovered := start.run recoverable rooted actions state recovering
  refine ⟨fun name valid => (recovered.kept.steady name valid).meaning, recovered.served, ?_⟩
  intro env mode pid sees
  have legible := (recoverable.later recovered.kept).legible sees mode pid
  obtain ⟨serves, completes⟩ := startup_serves_meaning legible rooted
  apply (completes.covered serves).mono
  rintro result after ⟨comesUp, _, served⟩
  constructor
  · rw [comesUp]
    apply forall₂_congr
    intro name valid
    rw [← (recovered.kept.steady name valid).meaning]
    rfl
  · intro daemon up name valid
    rw [← (recovered.kept.steady name valid).meaning]
    exact served daemon up name valid

/-- A startup that is killed after it rebuilt and pinned the map, and a second one -/
def retriedRun : List Action :=
  [.restart .plain demoRoots 7 (plenty.take 9), .kill, .restart .plain demoRoots 8 plenty]

theorem recovery_idempotent_retried :
    (@State.run exactLibm ⟨rebuildableWorld, none, fun _ => []⟩ (retriedRun.take 1)).daemon.isNone = true ∧
    (@State.run exactLibm ⟨rebuildableWorld, none, fun _ => []⟩ (retriedRun.take 1)).world.pinAt
    (bytes "/p/x") = some 1 ∧
    ∃ daemon, (@State.run exactLibm ⟨rebuildableWorld, none, fun _ => []⟩ retriedRun).daemon = some daemon ∧
      (@State.run exactLibm ⟨rebuildableWorld, none, fun _ => []⟩ retriedRun).world.served daemon.set.items demoName =
        [demoRoots.serves demoName (unpinnedRecord true) ⟨createdMapInfo 100 3, [⟨List.replicate 16 7, rfl⟩]⟩] := by
  have recovering : ∀ action ∈ retriedRun, Recovering demoRoots action := by
    intro action member
    simp only [retriedRun, List.mem_cons, List.not_mem_nil, or_false] at member
    rcases member with rfl | rfl | rfl
    · exact .restart .plain .always 7 _ ⟨rfl, fun _ _ => rfl⟩
    · exact .kill
    · exact .restart .plain .always 8 _ ⟨rfl, fun _ _ => rfl⟩
  have serves := (@recovery_idempotent exactLibm demoRoots ⟨rebuildableWorld, none, fun _ => []⟩ retriedRun
    recoverable_rebuildableWorld (by decide) rfl recovering).2.1
  have up : (@State.run exactLibm ⟨rebuildableWorld, none, fun _ => []⟩ retriedRun).daemon.isSome = true := by
    decide +kernel
  obtain ⟨daemon, running⟩ := Option.isSome_iff_exists.mp up
  refine ⟨by decide +kernel, by decide +kernel, daemon, running, ?_⟩
  exact serves daemon running demoName (by decide)

end Bloomd
