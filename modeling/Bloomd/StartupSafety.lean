import Bloomd.LoadTurn

/-! What a startup does to a healthy filter, one whose metadata file is valid and
whose pin is there. The loader takes a file that it cannot read for an invalid one,
so a passing error costs the filter its file or its pin. -/

namespace Bloomd

open CrashLogic Prog

/-- A valid metadata file with its pin in place -/
structure Healthy (roots : Config) (name : Bytes) (record : MetaRecord) (map : Nat) (world : World) : Prop
    extends Accepted roots name record world where
  pin : world.pinAt record.pinPath = some map

/-- The roots that a daemon was started with are not empty. -/
structure Config.Rooted (roots : Config) : Prop where
  metaRoot : roots.metaRoot ≠ []
  pinRoot : roots.pinRoot ≠ []

/-- The metadata file was not renamed and the pin was not unlinked. -/
structure Intact (roots : Config) (name : Bytes) (record : MetaRecord) (map : Nat)
    (before after : World) : Prop where
  file : after.fileAt (roots.metaPathOf name) = before.fileAt (roots.metaPathOf name)
  pin : after.pinAt record.pinPath = some map

/-- The shortest name under which a metadata file may be set aside -/
def Config.staleName (roots : Config) (name : Bytes) : Bytes :=
  roots.metaPathOf name ++ bytes ".stale." ++ natText 0

/-- The cleanup of orphaned pins can reach the pin of the filter. -/
structure Reclaimable (roots : Config) (name : Bytes) (record : MetaRecord) : Prop where
  fits : (roots.pinPathOf name).length < pathMax
  same : resolve (roots.pinPathOf name) = resolve record.pinPath

section

variable {env : Env} {roots : Config} {mode : LogSyncMode} {name : Bytes} {record : MetaRecord} {map : Nat}
  {world later : World}

theorem Healthy.intact (healthy : Healthy roots name record map world) :
    Intact roots name record map world world := ⟨rfl, healthy.pin⟩

theorem Healthy.present (healthy : Healthy roots name record map world) (rooted : roots.Rooted) :
    metaLeaf name ∈ entriesIn world.files (resolve roots.metaRoot) := by
  obtain ⟨file, present⟩ := healthy.file
  exact mem_entriesIn_metaRoot rooted.metaRoot healthy.valid present

theorem Intact.healthy (intact : Intact roots name record map world later)
    (healthy : Healthy roots name record map world) : Healthy roots name record map later :=
  ⟨healthy.toAccepted.of_file intact.file, intact.pin⟩

theorem Intact.apart {last : World} (intact : Intact roots name record map world later)
    (healthy : Healthy roots name record map world) (apart : Apart name later last) :
    Intact roots name record map world last :=
  ⟨(apart.fileAt healthy.valid roots).trans intact.file, (apart.pinAt healthy.leaf).trans intact.pin⟩

theorem Intact.changeLog (intact : Intact roots name record map world later) (path : Bytes)
    (change : LogFile → LogFile) : Intact roots name record map world (later.changeLog path change) := by
  refine ⟨?_, ?_⟩
  · rw [World.fileAt, World.changeLog_files]
    exact intact.file
  · rw [World.pinAt, World.changeLog_pins]
    exact intact.pin

theorem Intact.opened (intact : Intact roots name record map world later) :
    Intact roots name record map world (later.opened roots name record) := by
  unfold World.opened
  split
  · refine ⟨?_, ?_⟩
    · rw [World.fileAt, openLog_files]
      exact intact.file
    · rw [World.pinAt, openLog_pins]
      exact intact.pin
  · exact intact

/-- A healthy filter whose file can be read is loaded, or the load stops. -/
theorem Healthy.turn_readable (healthy : Healthy roots name record map world)
    (readable : env.reads (roots.metaPathOf name) = .ok) :
    Turn env roots mode name (Intact roots name record map world)
      (fun filters later => filters ≠ [] ∧ Intact roots name record map world later)
      (Intact roots name record map world) where
  valid := healthy.valid
  fits := healthy.fits
  before_apart apart intact := intact.apart healthy apart
  after_apart apart held := ⟨held.1, held.2.apart healthy apart⟩
  crash_apart apart intact := intact.apart healthy apart
  crash_changeLog path change intact := intact.changeLog path change
  begins intact := intact
  ends held := held.2
  turn {loading later} intact missing valids := by
    have safe : ∀ last, last = later ∨ last = later.opened roots name record →
        Intact roots name record map world last := by
      rintro last (rfl | rfl)
      · exact intact
      · exact intact.opened
    refine (wp_loadRecord_pinned (intact.healthy healthy).toAccepted readable intact.pin missing
      valids).mono ?_ safe
    rintro result last ⟨reached, done⟩
    refine ⟨safe last reached, fun ok => ⟨?_, safe last reached⟩⟩
    obtain ⟨_, _, now, items⟩ := done ok
    have member : roots.loaded name record map now ∈ result.2.set.named name := by
      refine FilterSet.mem_named.mpr ⟨?_, healthy.named⟩
      rw [items]
      exact List.mem_append_right _ (List.mem_singleton_self _)
    exact List.ne_nil_of_mem member

theorem Healthy.spared_readable (healthy : Healthy roots name record map world)
    (listed : metaLeaf name ∈ env.metaListing roots world)
    (readable : env.reads (roots.metaPathOf name) = .ok) (answers : List Answer) :
    Intact roots name record map world (startup env (roots.withMode mode) world answers).state := by
  have spec := (@Healthy.turn_readable env roots mode name record map world healthy readable).wp_startup
    listed healthy.intact fun _ held => held.1 rfl
  exact (spec.mono (fun _ _ held => held.1) fun _ held => held).stops answers

/-- A file whose stale name is too long stays where it is. -/
theorem wp_quarantine_long (long : pathMax ≤ (roots.staleName name).length) (loading : Loading) :
    wp (quarantine (roots.metaPathOf name) loading)
      (fun later after => after = world ∧ later.set = loading.set) (fun after => after = world) world := by
  have recovers : wp (metaRecoverStale (roots.metaPathOf name)) (fun _ after => after = world)
      (fun after => after = world) world := by
    refine wp_bind ((wp_call _).mpr ⟨rfl, fun answer => ?_⟩)
    have zero : (natText 0).length = 1 := rfl
    have digits := List.length_pos_of_ne_nil (natText_ne_nil answer.clock)
    have longer : pathMax ≤ (roots.metaPathOf name ++ bytes ".stale." ++ natText answer.clock).length := by
      simp only [Config.staleName, List.length_append] at long ⊢
      omega
    rw [if_pos longer]
    exact (wp_pure _).mpr rfl
  refine wp_bind (recovers.mono ?_ fun _ same => same)
  exact fun _ after same => (wp_pure _).mpr ⟨same, rfl⟩

/-- A healthy filter whose file cannot be read and not be set aside is passed over. -/
theorem Healthy.turn_stuck (healthy : Healthy roots name record map world)
    (failing : env.reads (roots.metaPathOf name) ≠ .ok) (long : pathMax ≤ (roots.staleName name).length) :
    Turn env roots mode name (Intact roots name record map world)
      (fun _ later => Intact roots name record map world later)
      (Intact roots name record map world) where
  valid := healthy.valid
  fits := healthy.fits
  before_apart apart intact := intact.apart healthy apart
  after_apart apart intact := intact.apart healthy apart
  crash_apart apart intact := intact.apart healthy apart
  crash_changeLog path change intact := intact.changeLog path change
  begins intact := intact
  ends intact := intact
  turn {loading later} intact _ _ := by
    have fails : wp (metaReadFile env (roots.metaPathOf name))
        (fun result after => (∃ errno, result = .error errno) ∧ after = later)
        (fun after => after = later) later := by
      refine (wp_call _).mpr ⟨rfl, fun _ => ?_⟩
      cases reads : env.reads (roots.metaPathOf name) with
      | ok => exact absurd reads failing
      | openFails fault => exact ⟨⟨_, rfl⟩, rfl⟩
      | readFails =>
        cases later.fileAt (roots.metaPathOf name) with
        | none => exact ⟨⟨_, rfl⟩, rfl⟩
        | some file => exact ⟨⟨_, rfl⟩, rfl⟩
    refine wp_bind (fails.mono ?_ fun _ same => same ▸ intact)
    rintro result after ⟨⟨errno, rfl⟩, rfl⟩
    refine wp_bind ((wp_quarantine_long long loading).mono ?_ fun _ same => same ▸ intact)
    rintro next last ⟨rfl, _⟩
    exact (wp_pure _).mpr ⟨intact, fun _ => intact⟩

theorem wp_cleanupPins_elsewhere (healthy : Healthy roots name record map world)
    (unreachable : ¬ Reclaimable roots name record) (entries : List Bytes) :
    ∀ (loading : Loading) (later : World), Intact roots name record map world later →
      wp (cleanupPins (roots.withMode mode) entries loading)
        (fun next last => next.set.items = loading.set.items ∧ Intact roots name record map world last)
        (Intact roots name record map world) later := by
  induction entries with
  | nil => exact fun loading later intact => (wp_pure _).mpr ⟨rfl, intact⟩
  | cons entry rest ih =>
    intro loading later intact
    have again : ∀ (next : Loading) (last : World), next.set.items = loading.set.items →
        Intact roots name record map world last →
        wp (cleanupPins (roots.withMode mode) rest next)
          (fun final last => final.set.items = loading.set.items ∧ Intact roots name record map world last)
          (Intact roots name record map world) last := by
      intro next last same held
      exact (ih next last held).mono (fun _ _ more => ⟨more.1.trans same, more.2⟩) fun _ held => held
    have found : (loading.set.findN entry).2.items = loading.set.items := by simp
    unfold cleanupPins
    split
    · exact ih loading later intact
    · rename_i named
      have valid : nameIsValid entry = true := by simpa using named
      simp only
      split
      · exact again _ later found intact
      · split
        · exact again _ later found intact
        · rename_i short
          have different : resolve (joined (roots.withMode mode).pinRoot entry []) ≠ resolve record.pinPath := by
            intro same
            have leaf := congrArg Loc.leaf same
            rw [show (resolve (joined (roots.withMode mode).pinRoot entry [])).leaf = entry from
              leaf_pinPathOf roots valid, healthy.leaf] at leaf
            subst leaf
            exact unreachable ⟨Nat.not_le.mp short, same⟩
          have unlinks : wp (sysUnlinkPin (joined (roots.withMode mode).pinRoot entry []))
              (fun _ last => Intact roots name record map world last)
              (Intact roots name record map world) later := by
            refine wp_attempt intact (fun _ _ => intact) ?_
            split
            · refine ⟨intact.file, ?_⟩
              rw [World.pinAt, World.dropPin_pins, AList.lookup_erase_ne (Ne.symm different)]
              exact intact.pin
            · exact intact
          refine wp_bind (unlinks.mono ?_ fun _ held => held)
          intro result last held
          cases result with
          | error errno => exact again _ last found held
          | ok _ => exact again _ last found held

theorem Healthy.spared_stuck (healthy : Healthy roots name record map world)
    (listed : metaLeaf name ∈ env.metaListing roots world)
    (failing : env.reads (roots.metaPathOf name) ≠ .ok) (long : pathMax ≤ (roots.staleName name).length)
    (unreachable : ¬ Reclaimable roots name record) (answers : List Answer) :
    Intact roots name record map world (startup env (roots.withMode mode) world answers).state := by
  have spec := (@Healthy.turn_stuck env roots mode name record map world healthy failing
    long).wp_startup_cleaned listed healthy.intact
    fun entries loading middle _ intact => wp_cleanupPins_elsewhere healthy unreachable entries loading middle intact
  exact (spec.mono (fun _ _ held => held.1) fun _ held => held).stops answers

/-- A healthy filter that the listing leaves out is passed over. -/
theorem Healthy.spared_unlisted (healthy : Healthy roots name record map world)
    (unlisted : metaLeaf name ∉ env.metaListing roots world) (unreachable : ¬ Reclaimable roots name record)
    (answers : List Answer) :
    Intact roots name record map world (startup env (roots.withMode mode) world answers).state := by
  have spec := @wp_startup_unlisted env roots mode name
    (Intact roots name record map world) world unlisted healthy.intact
    (fun apart intact => intact.apart healthy apart) (fun path change intact => intact.changeLog path change)
    fun entries loading middle intact => wp_cleanupPins_elsewhere healthy unreachable entries loading middle intact
  exact (spec.mono (fun _ _ held => held.1) fun _ held => held).stops answers

end

end Bloomd
