import Bloomd.DiskMeaning
import Bloomd.LoadComparison

/-! A startup and the meaning of the disk: what it serves, what it refuses, and what it
leaves behind, whatever its calls meet and wherever it stops. -/

namespace Bloomd

open CrashLogic Prog

/-- What the turn for a name comes to -/
inductive Makes (config : Config) (name : Bytes) (begun : World) : Ready → World → Prop where
  | nothing (absent : begun.meaning config name = .absent) (after : World) (steady : Steady config name begun after) :
      Makes config name begun .nothing after
  | aside (absent : begun.meaning config name = .absent) (after : World) (steady : Steady config name begun after) :
      Makes config name begun .aside after
  | failed (failure : Failure) (after : World) (steady : Steady config name begun after) :
      Makes config name begun (.failed failure) after
  | filter (record : FilterMeta) (filter : Filter) (unpinOnError : Bool) (kernel : KernelMap) (after : World)
      (named : filter.name = name) (placed : record.pinPath = config.pinPathOf name) (clear : filter.logBuf = [])
      (held : after.maps[filter.mapFd]? = some kernel)
      (meaning : begun.meaning config name = .filter ⟨filter.metadata, some kernel, filter.logHistoryIncomplete⟩)
      (steady : Steady config name begun after)
      (unpinned : unpinOnError = true → Steady config name begun (after.dropPin record.pinPath)) :
      Makes config name begun (.filter record filter unpinOnError) after

section Turn

variable {env : Env} {config : Config} {name : Bytes} {record : MetaRecord} {begun middle after : World}
  {map : Nat} {unpinOnError : Bool}

theorem Makes.steady {ready : Ready} (makes : Makes config name begun ready after) :
    Steady config name begun after := by
  cases makes with
  | nothing absent after steady => exact steady
  | aside absent after steady => exact steady
  | failed failure after steady => exact steady
  | filter record filter unpinOnError kernel after named placed clear held meaning steady unpinned => exact steady

/-- Setting aside metadata that stand for no filter -/
theorem Steady.setAside (steady : Steady config name begun middle) (absent : begun.meaning config name = .absent)
    (valid : nameIsValid name = true) (now : Nat) (file : Option MetaRecord) :
    Steady config name begun
      ((middle.dropFile (config.metaPathOf name)).setFile (config.metaPathOf name ++ bytes ".stale." ++
        natText now) file) := by
  have gone : ((middle.dropFile (config.metaPathOf name)).setFile
      (config.metaPathOf name ++ bytes ".stale." ++ natText now) file).fileAt (config.metaPathOf name) = none := by
    rw [World.fileAt, World.setFile_files,
      AList.lookup_insert_ne (staleLoc_ne valid now (leaf_metaPathOf config valid)),
      World.dropFile_files, AList.lookup_erase]
  refine ⟨⟨steady.widened.maps, steady.widened.sound⟩, ?_, Or.inr gone⟩
  rw [absent]
  apply World.meaning_unaccepted valid
  intro record accepted
  obtain ⟨stored, present, _⟩ := accepted.decoded
  rw [gone] at present
  cases present

theorem Steady.wp_metaRecoverStale (steady : Steady config name begun middle)
    (absent : begun.meaning config name = .absent) (valid : nameIsValid name = true) :
    wp (do let _ ← metaRecoverStale (config.metaPathOf name); pure Ready.aside) (Makes config name begun)
      (Steady config name begun) middle := by
  apply wp_bind
  apply wp_bind
  refine (wp_call _).mpr ⟨steady, fun answer => ?_⟩
  simp only
  split
  · exact (wp_pure _).mpr ((wp_pure _).mpr (.aside absent _ steady))
  · apply wp_attempt steady
    · exact fun errno _ => (wp_pure _).mpr (.aside absent _ steady)
    · cases middle.fileAt (config.metaPathOf name) with
      | none => exact (wp_pure _).mpr (.aside absent _ steady)
      | some file => exact (wp_pure _).mpr (.aside absent _ (steady.setAside absent valid _ file))

/-- The pin is taken back where the turn set it. -/
theorem Steady.wp_cleanupEntry {record : FilterMeta} (steady : Steady config name begun middle)
    (unpinned : unpinOnError = true → Steady config name begun (middle.dropPin record.pinPath)) (failure : Failure) :
    wp (do cleanupEntry record unpinOnError; pure (Ready.failed failure)) (Makes config name begun)
      (Steady config name begun) middle := by
  unfold cleanupEntry
  cases unpinOnError with
  | false => exact wp_bind ((wp_pure _).mpr ((wp_pure _).mpr (.failed failure _ steady)))
  | true =>
    simp only [↓reduceIte, bind_assoc]
    apply wp_bind
    apply (wp_bpfUnpin steady (unpinned rfl)).mono _ fun _ safe => safe
    exact fun _ after held => (wp_pure _).mpr (.failed failure _ held)

section Accepting

variable (accepted : Accepted config name record begun) (placed : (config.logPathOf name).length < pathMax)
  (homed : record.pinPath = config.pinPathOf name) (sound : begun.Sound)

include accepted placed homed sound

theorem InHand.wp_prepareFilter (inHand : InHand config name record begun map unpinOnError middle) :
    wp (prepareFilter (config.loadedMeta name record) map unpinOnError) (Makes config name begun)
      (Steady config name begun) middle := by
  have steady := inHand.steady accepted placed homed sound
  have opened := inHand.steady_opened accepted placed homed sound
  have unpinned : unpinOnError = true →
      Steady config name begun (middle.dropPin (config.loadedMeta name record).pinPath) := by
    rintro rfl
    rw [show (config.loadedMeta name record).pinPath = config.pinPathOf name from homed]
    exact inHand.steady_unpinned accepted homed sound
  have unpinnedOpened : unpinOnError = true →
      Steady config name begun ((middle.opened config name record).dropPin
        (config.loadedMeta name record).pinPath) := by
    rintro rfl
    rw [inHand.opened_rebuilt]
    exact unpinned rfl
  apply wp_bind
  apply (wp_validateOpenPinnedMap _ map middle).mono _ fun after same => same ▸ steady
  rintro checked _ ⟨rfl, matched⟩
  cases checked with
  | error failure => exact steady.wp_cleanupEntry unpinned failure
  | ok done =>
    obtain ⟨kernel, held, meaning⟩ := inHand.meaning accepted placed (matched rfl)
    apply wp_bind
    apply (wp_openLoadedLog_exact map).mono
    · rintro ⟨result, filter⟩ after ⟨reached, done⟩
      cases result with
      | error failure =>
        rcases reached with rfl | rfl
        · exact steady.wp_cleanupEntry unpinned failure
        · exact opened.wp_cleanupEntry unpinnedOpened failure
      | ok _ =>
        obtain ⟨rfl, now, rfl⟩ := done rfl
        apply (wp_pure _).mpr
        refine .filter _ _ _ kernel _ accepted.named homed rfl ?_ meaning opened unpinnedOpened
        rw [World.opened]
        split
        · rw [openLog_maps]
          exact held
        · exact held
    · intro after reached
      rcases reached with rfl | rfl
      · exact steady
      · exact opened

end Accepting

/-- A name without metadata that the loader accepts -/
theorem wp_prepareEntry_unaccepted (readable : env.reads (config.metaPathOf name) = .ok)
    (valid : nameIsValid name = true) (sound : begun.Sound) (none : ∀ record, ¬ Accepted config name record begun) :
    wp (prepareEntry env config (metaLeaf name)) (Makes config name begun) (Steady config name begun) begun := by
  have absent := World.meaning_unaccepted valid none
  have unmoved : Steady config name begun begun := .refl sound
  have asides := unmoved.wp_metaRecoverStale absent valid
  have path : joined config.metaRoot (metaLeaf name) [] = config.metaPathOf name := joined_metaLeaf config name
  unfold prepareEntry lookEntry
  simp only [path, metaEntryName_metaLeaf valid]
  split
  · exact wp_bind ((wp_pure _).mpr ((wp_pure _).mpr (.nothing absent _ unmoved)))
  · split
    · exact wp_bind ((wp_pure _).mpr ((wp_pure _).mpr (.nothing absent _ unmoved)))
    · rename_i fits
      unfold lookRecord
      rw [bind_assoc]
      apply wp_bind
      refine (wp_call _).mpr ⟨unmoved, fun _ => ?_⟩
      simp only [readable]
      cases present : begun.fileAt (config.metaPathOf name) with
      | none => exact asides
      | some file =>
        cases file with
        | none => exact asides
        | some stored =>
          cases decoded : stored.readBack with
          | none =>
            simp only [decoded]
            exact asides
          | some record =>
            simp only [decoded]
            split
            · exact asides
            · rename_i passes
              simp only [not_or, ne_eq, Decidable.not_not, Bool.not_eq_true', Bool.not_eq_false] at passes
              obtain ⟨named, under, pinned⟩ := passes
              rw [named] at pinned
              exact absurd ⟨valid, Nat.not_le.mp fits, ⟨stored, present, decoded⟩, named, under, pinned⟩ (none record)

/-- The turn for a name, with whatever its calls meet, and where it is cut short -/
theorem wp_prepareEntry_makes (readable : env.reads (config.metaPathOf name) = .ok) (valid : nameIsValid name = true)
    (homed : Homed config name begun) (sound : begun.Sound) :
    wp (prepareEntry env config (metaLeaf name)) (Makes config name begun) (Steady config name begun) begun := by
  by_cases some : ∃ record, Accepted config name record begun
  swap
  · exact wp_prepareEntry_unaccepted readable valid sound fun record accepted => some ⟨record, accepted⟩
  · obtain ⟨record, accepted⟩ := some
    obtain ⟨stored, present, decoded⟩ := accepted.decoded
    have unmoved : Steady config name begun begun := .refl sound
    have path : joined config.metaRoot (metaLeaf name) [] = config.metaPathOf name := joined_metaLeaf config name
    have passes : ¬ (record.name ≠ name ∨ (!pathUnderRoot record.pinPath config.pinRoot) = true ∨
        (!pathHasName record.pinPath record.name) = true) := by
      rw [accepted.named, accepted.under, accepted.pinned]
      simp
    unfold prepareEntry lookEntry
    simp only [path, metaEntryName_metaLeaf valid, hasSuffix_metaLeaf, Nat.not_le.mpr accepted.fits, Bool.not_true,
      Bool.false_eq_true, ↓reduceIte]
    unfold lookRecord
    rw [bind_assoc]
    apply wp_bind
    refine (wp_call _).mpr ⟨unmoved, fun _ => ?_⟩
    simp only [readable, present, decoded]
    rw [if_neg passes]
    split
    · exact (wp_pure _).mpr (.failed _ _ unmoved)
    · rename_i logPath built
      obtain ⟨short, rfl⟩ := joinPath_ok built
      rw [accepted.named] at short ⊢
      rw [bind_assoc]
      apply wp_bind
      apply (wp_openOrRebuild_finds accepted short (homed record accepted) sound).mono _ fun _ steady => steady
      intro opened after found
      simp only [pure_bind]
      cases found with
      | failed failure after steady => exact (wp_pure _).mpr (.failed failure _ steady)
      | stale after steady absent => exact steady.wp_metaRecoverStale absent valid
      | map map unpinOnError after inHand => exact inHand.wp_prepareFilter accepted short (homed record accepted) sound

end Turn

/-- Every name means what it meant. -/
structure Conserved (config : Config) (begun after : World) : Prop where
  widened : Widened begun after
  steady : ∀ name, nameIsValid name = true → Steady config name begun after

/-- A startup that is given all metadata files and can read them -/
structure Env.SeesAll (env : Env) (config : Config) : Prop where
  listed : env.filesCut = none
  reads : ∀ name, nameIsValid name = true → env.reads (config.metaPathOf name) = .ok

/-- The metadata of every name can be read, and they were written for these roots. -/
structure Legible (env : Env) (config : Config) (world : World) : Prop where
  sees : env.SeesAll config
  homed : ∀ name, nameIsValid name = true → Homed config name world
  sound : world.Sound

section Conserved

variable {env : Env} {config : Config} {name other : Bytes} {begun middle after : World}

theorem Widened.trans (first : Widened begun middle) (second : Widened middle after) : Widened begun after :=
  ⟨first.maps.trans second.maps, second.sound⟩

theorem Steady.trans (first : Steady config name begun middle) (second : Steady config name middle after) :
    Steady config name begun after := by
  refine ⟨first.widened.trans second.widened, second.meaning.trans first.meaning, ?_⟩
  rcases second.file with same | gone
  · rw [same]
    exact first.file
  · exact Or.inr gone

theorem Conserved.trans (first : Conserved config begun middle) (second : Conserved config middle after) :
    Conserved config begun after :=
  ⟨first.widened.trans second.widened, fun name valid => (first.steady name valid).trans (second.steady name valid)⟩

theorem Conserved.refl (sound : begun.Sound) : Conserved config begun begun :=
  ⟨⟨List.prefix_refl _, sound⟩, fun _ _ => .refl sound⟩

theorem Steady.homed (steady : Steady config name begun after) (homed : Homed config name begun) :
    Homed config name after := by
  intro record accepted
  rcases steady.file with same | gone
  · exact homed record (accepted.of_file same.symm)
  · obtain ⟨stored, present, _⟩ := accepted.decoded
    rw [gone] at present
    cases present

theorem Legible.later (legible : Legible env config begun) (kept : Conserved config begun after) :
    Legible env config after :=
  ⟨legible.sees, fun name valid => (kept.steady name valid).homed (legible.homed name valid), kept.widened.sound⟩

/-- A step within the files of one name -/
theorem Steady.of_within (within : Within other begun after) (different : name ≠ other)
    (valid : nameIsValid name = true)
    (sound : begun.Sound) (widened : Widened begun after) : Steady config name begun after := by
  have apart : Apart name begun after := within.apart different
  refine ⟨widened, ?_, Or.inl (apart.fileAt valid config)⟩
  apply World.meaning_congr valid (apart.fileAt valid config)
  · intro record accepted
    exact pinned_widened sound (apart.pins _ accepted.leaf) widened.maps
  · rw [World.replayable, apart.logAt valid config]
    rfl

/-- A step within the files of one name that is steady for it is steady for all. -/
theorem Conserved.of_within (within : Within other begun after) (sound : begun.Sound)
    (own : Steady config other begun after) : Conserved config begun after := by
  refine ⟨own.widened, ?_⟩
  intro name valid
  by_cases same : name = other
  · rw [same]
    exact own
  · exact .of_within within same valid sound own.widened

/-- What a turn of the load loop comes to, up to the filter that is ready -/
theorem wp_prepareEntry_kept (legible : Legible env config begun) (entry : Bytes) :
    wp (prepareEntry env config entry)
      (fun ready after => Conserved config begun after ∧
        ((∀ name, metaEntryName entry ≠ .ok name) → ready = .nothing) ∧
        ∀ name, metaEntryName entry = .ok name → Within name begun after ∧ Makes config name begun ready after)
      (Conserved config begun) begun := by
  cases found : metaEntryName entry with
  | error errno =>
    rw [prepareEntry_ignored fun name => by rw [found]; intro impossible; cases impossible]
    apply (wp_pure _).mpr
    refine ⟨.refl legible.sound, fun _ => rfl, ?_⟩
    intro name impossible
    cases impossible
  | ok name =>
    obtain ⟨rfl, valid⟩ := metaEntryName_ok found
    have within := staysWithin_prepareEntry env config valid begun
    have makes := @wp_prepareEntry_makes env config name begun (legible.sees.reads name valid) valid
      (legible.homed name valid) legible.sound
    apply (makes.and within).mono
    · rintro ready after ⟨makes, _, within⟩
      refine ⟨.of_within within legible.sound makes.steady, fun none => absurd rfl (none name), ?_⟩
      rintro _ ⟨⟩
      exact ⟨within, makes⟩
    · rintro after ⟨steady, within⟩
      exact .of_within within legible.sound steady

end Conserved

/-- What a load has gathered after some entries: each of their names is served as the disk
means it. -/
structure Gathering (config : Config) (begun : World) (entries : List Bytes) (items : List Filter)
    (world : World) : Prop where
  kept : Conserved config begun world
  bounds : ∀ filter ∈ items, filter.mapFd < world.maps.length
  clear : ∀ filter ∈ items, filter.logBuf = []
  named : ∀ filter ∈ items, nameIsValid filter.name = true ∧ metaLeaf filter.name ∈ entries
  served : ∀ name, nameIsValid name = true → metaLeaf name ∈ entries →
    world.served items name = (begun.meaning config name).served ∧ begun.meaning config name ≠ .refused

section Gathering

variable {env : Env} {config : Config} {name : Bytes} {begun world middle after : World} {loading : Loading}
  {items : List Filter} {done : List Bytes} {entry : Bytes}

theorem Gathering.start (config : Config) (sound : begun.Sound) : Gathering config begun [] [] begun :=
  ⟨.refl sound, List.forall_mem_nil _, List.forall_mem_nil _, List.forall_mem_nil _,
    fun _ _ listed => absurd listed List.not_mem_nil⟩

theorem Gathering.unserved (gathering : Gathering config begun done items world) (fresh : metaLeaf name ∉ done) :
    (items.filter fun filter => filter.name == name) = [] := by
  apply List.filter_eq_nil_iff.mpr
  intro filter member same
  have listed := (gathering.named filter member).2
  rw [eq_of_beq same] at listed
  exact fresh listed

/-- The world moves on, and the filters stay as they are. -/
theorem Gathering.later (gathering : Gathering config begun done items world) (kept : Conserved config world after) :
    Gathering config begun done items after where
  kept := gathering.kept.trans kept
  bounds := fun filter member => lt_of_lt_of_le (gathering.bounds filter member) kept.widened.maps.length_le
  clear := gathering.clear
  named := gathering.named
  served := by
    intro name valid listed
    rw [World.served_widened kept.widened gathering.bounds]
    exact gathering.served name valid listed

theorem Gathering.listed (gathering : Gathering config begun done items world)
    (unnamed : ∀ name, metaEntryName entry ≠ .ok name) : Gathering config begun (done ++ [entry]) items world where
  kept := gathering.kept
  bounds := gathering.bounds
  clear := gathering.clear
  named := fun filter member =>
    ⟨(gathering.named filter member).1, List.mem_append_left _ (gathering.named filter member).2⟩
  served := by
    intro name valid listed
    rcases List.mem_append.mp listed with old | new
    · exact gathering.served name valid old
    · rw [← List.mem_singleton.mp new, metaEntryName_metaLeaf valid] at unnamed
      exact absurd rfl (unnamed name)

theorem Gathering.absent (gathering : Gathering config begun done items world) (fresh : metaLeaf name ∉ done)
    (absent : begun.meaning config name = .absent) : Gathering config begun (done ++ [metaLeaf name]) items world where
  kept := gathering.kept
  bounds := gathering.bounds
  clear := gathering.clear
  named := fun filter member =>
    ⟨(gathering.named filter member).1, List.mem_append_left _ (gathering.named filter member).2⟩
  served := by
    intro other valid listed
    rcases List.mem_append.mp listed with old | new
    · exact gathering.served other valid old
    · obtain rfl := metaLeaf_injective (List.mem_singleton.mp new)
      rw [absent, World.served, gathering.unserved fresh]
      exact ⟨rfl, Meaning.noConfusion⟩

theorem World.served_append_ne (world : World) (items : List Filter) {filter : Filter}
    (different : filter.name ≠ name) : world.served (items ++ [filter]) name = world.served items name := by
  simp [World.served, different]

theorem Gathering.filter {filter : Filter} {kernel : KernelMap} (gathering : Gathering config begun done items world)
    (fresh : metaLeaf name ∉ done) (named : filter.name = name) (valid : nameIsValid name = true)
    (clear : filter.logBuf = [])
    (held : world.maps[filter.mapFd]? = some kernel)
    (meaning : begun.meaning config name = .filter ⟨filter.metadata, some kernel, filter.logHistoryIncomplete⟩) :
    Gathering config begun (done ++ [metaLeaf name]) (items ++ [filter]) world where
  kept := gathering.kept
  bounds := by
    intro other member
    rcases List.mem_append.mp member with old | new
    · exact gathering.bounds other old
    · rw [List.mem_singleton.mp new]
      exact (List.getElem?_eq_some_iff.mp held).1
  clear := by
    intro other member
    rcases List.mem_append.mp member with old | new
    · exact gathering.clear other old
    · rw [List.mem_singleton.mp new]
      exact clear
  named := by
    intro other member
    rcases List.mem_append.mp member with old | new
    · exact ⟨(gathering.named other old).1, List.mem_append_left _ (gathering.named other old).2⟩
    · rw [List.mem_singleton.mp new, named]
      exact ⟨valid, List.mem_append_right _ List.mem_cons_self⟩
  served := by
    intro other valid' listed
    by_cases own : other = name
    · subst own
      rw [World.served_append _ _ named, World.served, gathering.unserved fresh, meaning, held]
      exact ⟨rfl, Meaning.noConfusion⟩
    · rw [World.served_append_ne _ _ (by rw [named]; exact Ne.symm own)]
      rcases List.mem_append.mp listed with old | new
      · exact gathering.served other valid' old
      · exact absurd (metaLeaf_injective (List.mem_singleton.mp new)) own

/-- What a load comes to, with whatever result -/
def Loaded (config : Config) (begun : World) (entries : List Bytes) (result : Except Failure Unit × Loading)
    (after : World) : Prop :=
  (∀ filter ∈ result.2.set.items, filter.logBuf = []) ∧ Conserved config begun after ∧
    (result.1 = .ok () → Gathering config begun entries result.2.set.items after)

/-- The end of a turn -/
theorem Gathering.wp_finishEntry {ready : Ready} (gathering : Gathering config begun done loading.set.items world)
    (kept : Conserved config world middle) (fresh : entry ∉ done)
    (ignored : (∀ name, metaEntryName entry ≠ .ok name) → ready = .nothing)
    (makes : ∀ name, metaEntryName entry = .ok name → Within name world middle ∧
      Makes config name world ready middle) :
    wp (finishEntry loading ready) (Loaded config begun (done ++ [entry])) (Conserved config begun) middle := by
  have later := gathering.later kept
  cases found : metaEntryName entry with
  | error errno =>
    have unnamed : ∀ name, metaEntryName entry ≠ .ok name := by
      intro name impossible
      rw [found] at impossible
      cases impossible
    rw [ignored unnamed]
    exact (wp_pure _).mpr ⟨gathering.clear, later.kept, fun _ => later.listed unnamed⟩
  | ok name =>
    obtain ⟨rfl, valid⟩ := metaEntryName_ok found
    obtain ⟨within, makes⟩ := makes name found
    have meant := (gathering.kept.steady name valid).meaning
    cases makes with
    | nothing absent _ steady =>
      exact (wp_pure _).mpr ⟨gathering.clear, later.kept, fun _ => later.absent fresh (meant.symm.trans absent)⟩
    | aside absent _ steady =>
      exact (wp_pure _).mpr ⟨gathering.clear, later.kept, fun _ => later.absent fresh (meant.symm.trans absent)⟩
    | failed failure _ steady =>
      refine (wp_pure _).mpr ⟨gathering.clear, later.kept, ?_⟩
      intro impossible
      cases impossible
    | filter record filter unpinOnError kernel _ named placed clear held meaning steady unpinned =>
      apply wp_bind
      apply (wp_filterSetAdd loading.set filter middle).mono _ fun after same => same ▸ later.kept
      rintro added after ⟨rfl, grown⟩
      cases added with
      | ok set =>
        apply (wp_pure _).mpr
        rw [Loaded, show set.items = loading.set.items ++ [filter] from grown set rfl]
        have whole := later.filter fresh named valid clear held (meant.symm.trans meaning)
        exact ⟨whole.clear, later.kept, fun _ => whole⟩
      | error errno =>
        have failing : ∀ last, Conserved config begun last →
            Loaded config begun (done ++ [metaLeaf name])
              (.error ⟨errno, "too many filters loaded"⟩, loading) last := by
          intro last safe
          refine ⟨gathering.clear, safe, ?_⟩
          intro impossible
          cases impossible
        unfold cleanupEntry
        cases unpinOnError with
        | false => exact wp_bind ((wp_pure _).mpr ((wp_pure _).mpr (failing _ later.kept)))
        | true =>
          have leaf : (resolve record.pinPath).leaf = name := by
            rw [placed]
            exact leaf_pinPathOf config valid
          have dropped : Conserved config begun (after.dropPin record.pinPath) :=
            gathering.kept.trans (.of_within (Trans.trans within (Within.dropPin _ leaf)) gathering.kept.widened.sound
              (unpinned rfl))
          simp only [↓reduceIte, bind_assoc]
          apply wp_bind
          apply (wp_bpfUnpin later.kept dropped).mono _ fun _ safe => safe
          exact fun _ last held => (wp_pure _).mpr (failing last held)

/-- The loop of a load -/
theorem Gathering.wp_loadEntries (legible : Legible env config begun) (entries : List Bytes) :
    ∀ (done : List Bytes) (loading : Loading) (world : World), (done ++ entries).Nodup →
      Gathering config begun done loading.set.items world →
      wp (loadEntries env config entries loading) (Loaded config begun (done ++ entries))
        (Conserved config begun) world := by
  induction entries with
  | nil =>
    intro done loading world _ gathering
    apply (wp_pure _).mpr
    rw [List.append_nil]
    exact ⟨gathering.clear, gathering.kept, fun _ => gathering⟩
  | cons entry rest ih =>
    intro done loading world unique gathering
    have fresh : entry ∉ done := fun member => List.disjoint_of_nodup_append unique member List.mem_cons_self
    have missing : ∀ name, metaEntryName entry = .ok name → (loading.set.findN name).1 = none := by
      intro name found
      obtain ⟨rfl, valid⟩ := metaEntryName_ok found
      exact FilterSet.findN_of_named (fun filter member => (gathering.named filter member).1) valid
        (gathering.unserved fresh)
    unfold loadEntries
    rw [loadEntry_prepared env config missing, bind_assoc]
    apply wp_bind
    apply (wp_prepareEntry_kept (legible.later gathering.kept) entry).mono
    · rintro ready middle ⟨kept, ignored, makes⟩
      apply wp_bind
      apply (gathering.wp_finishEntry kept fresh ignored makes).mono _ fun _ safe => safe
      rintro ⟨loaded, later⟩ after ⟨clear, safe, gathered⟩
      cases loaded with
      | error failure =>
        refine (wp_pure _).mpr ⟨clear, safe, ?_⟩
        intro impossible
        cases impossible
      | ok _ =>
        have whole := ih (done ++ [entry]) later after (by simpa using unique) (gathered rfl)
        simpa using whole
    · exact fun after kept => gathering.kept.trans kept

end Gathering

/-- The filters of a set are exactly those that the disk means. -/
structure Agreeing (config : Config) (begun : World) (items : List Filter) (world : World) : Prop where
  kept : Conserved config begun world
  bounds : ∀ filter ∈ items, filter.mapFd < world.maps.length
  clear : ∀ filter ∈ items, filter.logBuf = []
  valid : ∀ filter ∈ items, nameIsValid filter.name = true
  served : ∀ name, nameIsValid name = true → world.served items name = (begun.meaning config name).served
  accepted : ∀ name, nameIsValid name = true → begun.meaning config name ≠ .refused

section Agreeing

variable {env : Env} {config : Config} {name : Bytes} {begun world middle after : World} {items : List Filter}

/-- A name that is not listed stands for no filter. -/
theorem World.meaning_unlisted (rooted : config.metaRoot ≠ []) (valid : nameIsValid name = true)
    (unlisted : metaLeaf name ∉ entriesIn begun.files (resolve config.metaRoot)) :
    begun.meaning config name = .absent := by
  apply World.meaning_unaccepted valid
  intro record accepted
  obtain ⟨file, present⟩ := accepted.file
  exact unlisted (mem_entriesIn_metaRoot rooted valid present)

/-- A load of all entries has loaded everything. -/
theorem Gathering.agreeing {entries : List Bytes} (gathering : Gathering config begun entries items world)
    (rooted : config.metaRoot ≠ []) (listed : ∀ entry, entry ∈ entriesIn begun.files (resolve config.metaRoot) →
      entry ∈ entries) :
    Agreeing config begun items world := by
  have meant : ∀ name, nameIsValid name = true → world.served items name = (begun.meaning config name).served ∧
      begun.meaning config name ≠ .refused := by
    intro name valid
    by_cases known : metaLeaf name ∈ entries
    · exact gathering.served name valid known
    · rw [World.meaning_unlisted rooted valid fun member => known (listed _ member), World.served,
        gathering.unserved known]
      exact ⟨rfl, Meaning.noConfusion⟩
  exact ⟨gathering.kept, gathering.bounds, gathering.clear, fun filter member => (gathering.named filter member).1,
    fun name valid => (meant name valid).1, fun name valid => (meant name valid).2⟩

theorem Agreeing.later (agreeing : Agreeing config begun items world) (kept : Conserved config world after) :
    Agreeing config begun items after where
  kept := agreeing.kept.trans kept
  bounds := fun filter member => lt_of_lt_of_le (agreeing.bounds filter member) kept.widened.maps.length_le
  clear := agreeing.clear
  valid := agreeing.valid
  served := by
    intro name valid
    rw [World.served_widened kept.widened agreeing.bounds]
    exact agreeing.served name valid
  accepted := agreeing.accepted

theorem World.Sound.dropPin {path : Bytes} (sound : world.Sound) : (world.dropPin path).Sound := by
  intro loc map there
  by_cases here : loc = resolve path
  · rw [World.dropPin_pins, here, AList.lookup_erase] at there
    cases there
  · rw [World.dropPin_pins, AList.lookup_erase_ne here] at there
    exact sound loc map there

/-- Where a record stands for no filter, its pin is not there. -/
theorem unpinned_of_absent {record : MetaRecord} (accepted : Accepted config name record world)
    (absent : world.meaning config name = .absent) : world.pinned (resolve record.pinPath) = none := by
  by_cases placed : (config.logPathOf name).length < pathMax
  · rw [World.meaning_accepted accepted placed] at absent
    cases there : world.pinned (resolve record.pinPath) with
    | none => rfl
    | some kernel =>
      rw [there] at absent
      unfold Config.meaningOf at absent
      simp only at absent
      split at absent
      · cases absent
      · cases absent
  · rw [World.meaning_unplaced accepted (Nat.not_lt.mp placed)] at absent
    cases absent

/-- Removing the pin of a name that stands for no filter -/
theorem Steady.dropPin (sound : world.Sound) (valid : nameIsValid name = true)
    (absent : world.meaning config name = .absent) :
    Steady config name world (world.dropPin (config.pinPathOf name)) := by
  refine ⟨⟨List.prefix_refl _, sound.dropPin⟩, ?_, Or.inl rfl⟩
  refine World.meaning_congr valid ?_ ?_ ?_
  · rfl
  swap
  · rfl
  · intro record accepted
    have unpinned := unpinned_of_absent accepted absent
    rw [unpinned]
    by_cases here : resolve record.pinPath = resolve (config.pinPathOf name)
    · rw [World.pinned, here, World.dropPin_pins, AList.lookup_erase]
      rfl
    · rw [World.pinned, World.dropPin_pins, AList.lookup_erase_ne here]
      exact unpinned

/-- The cleanup removes only pins of names that stand for no filter. -/
theorem Agreeing.wp_cleanupPins (entries : List Bytes) :
    ∀ (loading : Loading) (world : World), Agreeing config begun loading.set.items world →
      wp (cleanupPins config entries loading) (fun later after => Agreeing config begun later.set.items after)
        (Conserved config begun) world := by
  induction entries with
  | nil => exact fun loading world agreeing => (wp_pure _).mpr agreeing
  | cons entry rest ih =>
    intro loading world agreeing
    have found : (loading.set.findN entry).2.items = loading.set.items := by simp
    have again : ∀ (later : Loading) (middle : World), later.set.items = loading.set.items →
        Conserved config world middle →
        wp (cleanupPins config rest later) (fun last after => Agreeing config begun last.set.items after)
          (Conserved config begun) middle := by
      intro later middle same kept
      apply ih later middle
      rw [same]
      exact agreeing.later kept
    have unmoved : Conserved config world world := .refl agreeing.kept.widened.sound
    unfold cleanupPins
    split
    · exact ih loading world agreeing
    · rename_i named
      have valid : nameIsValid entry = true := by simpa using named
      simp only
      split
      · exact again _ world found unmoved
      · rename_i unfound
        split
        · exact again _ world found unmoved
        · have none : world.served loading.set.items entry = [] := by
            apply List.map_eq_nil_iff.mpr
            apply List.filter_eq_nil_iff.mpr
            intro filter member same
            exact unfound (FilterSet.findN_isSome agreeing.valid valid member (eq_of_beq same))
          have absent : world.meaning config entry = .absent := by
            have served := agreeing.served entry valid
            have accepted := agreeing.accepted entry valid
            rw [none] at served
            rw [(agreeing.kept.steady entry valid).meaning]
            cases meaning : begun.meaning config entry with
            | absent => rfl
            | refused => exact absurd meaning accepted
            | filter seen =>
              rw [meaning] at served
              cases served
          have dropped : Conserved config world (world.dropPin (config.pinPathOf entry)) :=
            .of_within (Within.dropPin _ (leaf_pinPathOf config valid)) agreeing.kept.widened.sound
              (.dropPin agreeing.kept.widened.sound valid absent)
          apply wp_bind
          apply wp_attempt agreeing.kept
          · exact fun errno _ => again _ world found unmoved
          · cases world.pinAt (joined config.pinRoot entry []) with
            | none => exact again _ world found unmoved
            | some map => exact again _ _ found dropped

theorem World.replayable_synced (world : World) (path other : Bytes) :
    (world.changeLog path LogFile.synced).replayable other = world.replayable other := by
  unfold World.replayable World.changeLog World.logAt
  cases there : world.logs.lookup (resolve path) with
  | none => rfl
  | some log =>
    by_cases here : resolve other = resolve path
    · rw [here]
      simp [there, LogFile.synced, LogFile.data]
    · simp [here]

theorem Conserved.synced (sound : world.Sound) (path : Bytes) :
    Conserved config world (world.changeLog path LogFile.synced) := by
  have widened : Widened world (world.changeLog path LogFile.synced) := by
    constructor
    · simp only [World.changeLog_maps, List.prefix_refl]
    · intro loc map there
      rw [World.changeLog_pins] at there
      rw [World.changeLog_maps]
      exact sound loc map there
  refine ⟨widened, fun name valid => ⟨widened, ?_, Or.inl ?_⟩⟩
  · apply World.meaning_congr valid _ _ (World.replayable_synced world path _)
    · rw [World.fileAt, World.changeLog_files]
      rfl
    · exact fun record _ => pinned_widened sound (by rw [World.changeLog_pins]) widened.maps
  · rw [World.fileAt, World.changeLog_files]
    rfl

theorem wp_writeAll_nil {crash : World → Prop} (path : Bytes) (held : crash world) :
    wp (writeAll path []) (fun _ after => crash after) crash world := by
  apply wp_loop (fun rest middle => rest = [] ∧ crash middle)
  · rintro rest middle ⟨rfl, safe⟩
    rw [if_pos rfl]
    exact (wp_pure _).mpr safe
  · exact ⟨rfl, held⟩

/-- Freeing filters without a buffered digest changes the meaning of no name. -/
theorem Conserved.wp_freeFilters (items : List Filter) :
    ∀ world : World, (∀ filter ∈ items, filter.logBuf = []) → Conserved config begun world →
      wp (freeFilters items) (fun _ after => Conserved config begun after) (Conserved config begun) world := by
  induction items with
  | nil => exact fun world _ kept => (wp_pure _).mpr kept
  | cons filter rest ih =>
    intro world clear kept
    have others : ∀ other ∈ rest, other.logBuf = [] := fun other member => clear other (List.mem_cons_of_mem _ member)
    unfold freeFilters
    rw [clear filter List.mem_cons_self]
    apply wp_bind
    cases filter.logFd with
    | none => exact (wp_pure _).mpr (ih world others kept)
    | some path =>
      apply wp_bind
      apply (wp_writeAll_nil path kept).mono _ fun _ safe => safe
      intro written middle kept
      cases written with
      | error errno => exact (wp_pure _).mpr (ih middle others kept)
      | ok done =>
        simp only [↓reduceIte]
        apply wp_bind
        apply wp_attempt kept
        · exact fun errno _ => (wp_pure _).mpr (ih middle others kept)
        · exact (wp_pure _).mpr (ih _ others (kept.trans (.synced kept.widened.sound path)))

/-- A startup serves what the disk means, or nothing; and the disk keeps its meaning. -/
theorem wp_startup_agreeing (legible : Legible env config begun) (rooted : config.metaRoot ≠ []) :
    wp (startup env config) (fun result after => Conserved config begun after ∧
      ∀ daemon, result = .ok daemon → daemon.config = config ∧ Agreeing config begun daemon.set.items after)
      (Conserved config begun) begun := by
  have start := Gathering.start config legible.sound
  have fails : ∀ (set : FilterSet) (failure : Failure) (middle : World), (∀ filter ∈ set.items, filter.logBuf = []) →
      Conserved config begun middle → wp (do filterSetFree set; pure (.error failure) : Sys (Except Failure Daemon))
        (fun result after => Conserved config begun after ∧
          ∀ daemon, result = .ok daemon → daemon.config = config ∧ Agreeing config begun daemon.set.items after)
        (Conserved config begun) middle := by
    intro set failure middle clear kept
    apply wp_bind
    apply (Conserved.wp_freeFilters set.items middle clear kept).mono _ fun _ safe => safe
    intro _ after kept
    refine (wp_pure _).mpr ⟨kept, ?_⟩
    intro daemon impossible
    cases impossible
  have loads : wp (loadMetadataDir env config ⟨.init, .zero⟩)
      (fun result after => (∀ filter ∈ result.2.set.items, filter.logBuf = []) ∧ Conserved config begun after ∧
        (result.1 = .ok () → Agreeing config begun result.2.set.items after)) (Conserved config begun) begun := by
    apply wp_loadMetadataDir_listed start.kept
    · exact fun failure => ⟨List.forall_mem_nil _, start.kept, nofun⟩
    · have turns := Gathering.wp_loadEntries legible _ [] ⟨.init, .zero⟩ begun
        (env.nodup_metaListing config begun) start
      apply turns.mono _ fun _ safe => safe
      rintro result after ⟨clear, kept, gathered⟩
      refine ⟨clear, kept, fun fine => (gathered fine).agreeing rooted ?_⟩
      exact fun entry listed => (env.mem_metaListing legible.sees.listed).mpr listed
  apply wp_bind
  apply loads.mono _ fun _ safe => safe
  rintro ⟨loaded, loading⟩ middle ⟨clear, kept, agreeing⟩
  cases loaded with
  | error failure => exact fails _ failure middle clear kept
  | ok _ =>
    have agreeing := agreeing rfl
    have cleans : wp (cleanupOrphanPins env config loading) (fun result after =>
        Agreeing config begun result.2.set.items after) (Conserved config begun) middle := by
      apply wp_bind
      apply wp_attempt kept
      · intro errno transient
        simp only [transient.ne_enoent, ↓reduceIte]
        exact (wp_pure _).mpr agreeing
      · apply wp_bind
        apply (Agreeing.wp_cleanupPins _ loading middle agreeing).mono _ fun _ safe => safe
        exact fun later after held => (wp_pure _).mpr held
    apply wp_bind
    apply cleans.mono _ fun _ safe => safe
    rintro ⟨cleaned, later⟩ after agreeing
    cases cleaned with
    | error errno => exact fails _ _ after agreeing.clear agreeing.kept
    | ok _ =>
      refine (wp_pure _).mpr ⟨agreeing.kept, ?_⟩
      intro daemon same
      obtain rfl := Except.ok.inj same
      exact ⟨rfl, agreeing⟩

end Agreeing

end Bloomd
