import Bloomd.FileNames
import Bloomd.LoadTwins

/-! A load does not depend on the order in which the metadata directory is listed, as long
as the calls for one entry are answered the same in every order. -/

namespace Bloomd

open CrashLogic Prog

/-- What a load has gathered: the filters, the entries that were set aside, the world -/
structure Gathered where
  items : List Filter
  aside : List Bytes
  world : World

/-- What a turn adds, if it does not fail -/
def Gathered.take (gathered : Gathered) (entry : Bytes) (world : World) : Ready → Option Gathered
  | .nothing => some { gathered with world }
  | .aside => some { gathered with world, aside := entry :: gathered.aside }
  | .failed _ => none
  | .filter _ filter _ => some { gathered with world, items := gathered.items ++ [filter] }

/-- The turn of an entry whose calls meet the answers that belong to it -/
def Gathers (env : Env) (config : Config) (calls : Bytes → List Answer) (entry : Bytes)
    (before after : Gathered) : Prop :=
  ∃ ready world, prepareEntry env config entry before.world (calls entry) = .returned ready world [] ∧
    before.take entry world ready = some after

/-- A filter as a load should leave it in every order: its metadata, its map, and whether
its log is known to be incomplete -/
structure Served where
  metadata : FilterMeta
  map : Option KernelMap
  logHistoryIncomplete : Bool

def World.served (world : World) (items : List Filter) (name : Bytes) : List Served :=
  (items.filter fun filter => filter.name == name).map fun filter =>
    ⟨filter.metadata, world.maps[filter.mapFd]?, filter.logHistoryIncomplete⟩

/-- What is gathered for one name -/
structure Shown where
  served : List Served
  aside : Nat
  files : Loc → Option (Option MetaRecord)
  logs : Loc → Option LogFile
  pins : Loc → Option KernelMap

def Gathered.shown (gathered : Gathered) (name : Bytes) : Shown where
  served := gathered.world.served gathered.items name
  aside := gathered.aside.count (metaLeaf name)
  files loc := if loc.leaf = metaLeaf name then gathered.world.files.lookup loc else none
  logs loc := if loc.leaf = logLeaf name then gathered.world.logs.lookup loc else none
  pins loc := if loc.leaf = name then gathered.world.pinned loc else none

/-- What is gathered for an entry, if it is one that the loader looks at -/
def entryShown (entry : Bytes) (gathered : Gathered) : Option Shown :=
  match metaEntryName entry with
  | .ok name => some (gathered.shown name)
  | .error _ => none

/-- All pins and all filters lead to maps, and the filters have valid names. -/
structure Gathered.Sound (gathered : Gathered) : Prop where
  pins : gathered.world.Sound
  maps : ∀ filter ∈ gathered.items, filter.mapFd < gathered.world.maps.length
  named : ∀ filter ∈ gathered.items, nameIsValid filter.name = true

section Steps

variable {env env' : Env} {config : Config} {calls calls' : Bytes → List Answer} {entry name : Bytes}
  {before after other reached : Gathered}

theorem Gathered.twin (same : before.shown name = other.shown name) : Twin name before.world other.world := by
  constructor
  · intro loc leaf
    have files := congrFun (congrArg Shown.files same) loc
    simpa [Gathered.shown, leaf] using files
  · intro loc leaf
    have logs := congrFun (congrArg Shown.logs same) loc
    simpa [Gathered.shown, leaf] using logs
  · intro loc leaf
    have pins := congrFun (congrArg Shown.pins same) loc
    simpa [Gathered.shown, leaf] using pins

theorem prepareEntry_ignored (unnamed : ∀ name, metaEntryName entry ≠ .ok name) :
    prepareEntry env config entry = pure .nothing := by
  unfold prepareEntry lookEntry
  split
  · rfl
  · simp only
    split
    · rfl
    · cases found : metaEntryName entry with
      | ok name => exact absurd found (unnamed name)
      | error errno => rfl

/-- An entry that the loader passes over changes nothing. -/
theorem Gathers.ignored (gathers : Gathers env config calls entry before after)
    (unnamed : ∀ name, metaEntryName entry ≠ .ok name) : calls entry = [] ∧ after = before := by
  obtain ⟨ready, world, run, taken⟩ := gathers
  rw [prepareEntry_ignored unnamed] at run
  obtain ⟨rfl, rfl, unused⟩ := Stop.returned.inj run
  exact ⟨unused, (Option.some.inj taken).symm⟩

/-- Where two worlds show the same for a name, the turn of its entry goes the same way. -/
theorem prepareEntry_follows {world world' later : World} {ready : Ready} {answers answers' : List Answer}
    (reads : env'.reads = env.reads) (valid : nameIsValid name = true) (twin : Twin name world world')
    (sound : world.Sound)
    (sound' : world'.Sound) (alike : List.Forall₂ Answer.Alike answers answers')
    (run : prepareEntry env config (metaLeaf name) world answers = .returned ready later []) :
    ∃ ready' later', prepareEntry env' config (metaLeaf name) world' answers' = .returned ready' later' [] ∧
      Prepares name (config.metaPathOf name) world world' ready ready' later later' := by
  obtain ⟨used, split, continues⟩ := (simulates_prepareEntry reads valid twin sound sound').run run
  rw [List.append_nil] at split
  subst split
  obtain ⟨ready', later', prepares, finished⟩ := continues answers' alike
  have finished := finished []
  rw [List.append_nil] at finished
  exact ⟨ready', later', finished, prepares⟩

theorem twin_refl (name : Bytes) (world : World) : Twin name world world :=
  ⟨fun _ _ => rfl, fun _ _ => rfl, fun _ _ => rfl⟩

theorem prepareEntry_prepares {world later : World} {ready : Ready} {answers : List Answer}
    (valid : nameIsValid name = true)
    (sound : world.Sound) (run : prepareEntry env config (metaLeaf name) world answers = .returned ready later []) :
    Prepares name (config.metaPathOf name) world world ready ready later later := by
  obtain ⟨ready', later', again, prepares⟩ :=
    prepareEntry_follows rfl valid (twin_refl name world) sound sound (forall₂_refl answers) run
  rw [run] at again
  obtain ⟨rfl, rfl, -⟩ := Stop.returned.inj again
  exact prepares

/-- What holds of the worlds after two turns that did not fail -/
theorem Prepares.settled {path : Bytes} {begun begun' left right : World} {ready ready' : Ready}
    (prepares : Prepares name path begun begun' ready ready' left right) (twin : Twin name begun begun')
    (sound : begun.Sound) (sound' : begun'.Sound) (fine : ∀ failure, ready ≠ .failed failure) :
    Twin name left right ∧ Widened begun left ∧ Widened begun' right := by
  cases prepares with
  | nothing => exact ⟨twin, ⟨List.prefix_refl _, sound⟩, ⟨List.prefix_refl _, sound'⟩⟩
  | failed failure _ => exact absurd rfl (fine failure)
  | unmoved paired => exact ⟨paired.twin, paired.widened, paired.widened'⟩
  | moved twin widened widened' => exact ⟨twin, widened, widened'⟩
  | filter _ _ _ _ _ _ _ _ paired => exact ⟨paired.twin, paired.widened, paired.widened'⟩

theorem Gathered.take_fine {ready : Ready} {world : World} (taken : before.take entry world ready = some after) :
    (∀ failure, ready ≠ .failed failure) ∧ after.world = world := by
  cases ready with
  | failed failure => cases taken
  | nothing =>
    obtain rfl := Option.some.inj taken
    exact ⟨nofun, rfl⟩
  | aside =>
    obtain rfl := Option.some.inj taken
    exact ⟨nofun, rfl⟩
  | filter record filter unpinOnError =>
    obtain rfl := Option.some.inj taken
    exact ⟨nofun, rfl⟩

/-- What two turns for one name add to what was gathered -/
theorem Prepares.taken {path : Bytes} {begun begun' left right : World} {ready ready' : Ready}
    (prepares : Prepares name path begun begun' ready ready' left right)
    (taken : before.take entry left ready = some after) (taken' : other.take entry right ready' = some reached) :
    (after.items = before.items ∧ reached.items = other.items ∨ ∃ filter filter' : Filter,
      after.items = before.items ++ [filter] ∧ reached.items = other.items ++ [filter'] ∧ filter.name = name ∧
      filter'.metadata = filter.metadata ∧ filter'.logHistoryIncomplete = filter.logHistoryIncomplete ∧
      SameMap left right filter.mapFd filter'.mapFd) ∧
    (after.aside = before.aside ∧ reached.aside = other.aside ∨
      after.aside = entry :: before.aside ∧ reached.aside = entry :: other.aside) := by
  cases prepares with
  | failed failure _ => cases taken
  | nothing =>
    obtain rfl := Option.some.inj taken
    obtain rfl := Option.some.inj taken'
    exact ⟨Or.inl ⟨rfl, rfl⟩, Or.inl ⟨rfl, rfl⟩⟩
  | unmoved paired =>
    obtain rfl := Option.some.inj taken
    obtain rfl := Option.some.inj taken'
    exact ⟨Or.inl ⟨rfl, rfl⟩, Or.inr ⟨rfl, rfl⟩⟩
  | moved _ _ _ =>
    obtain rfl := Option.some.inj taken
    obtain rfl := Option.some.inj taken'
    exact ⟨Or.inl ⟨rfl, rfl⟩, Or.inr ⟨rfl, rfl⟩⟩
  | filter record filter filter' unpinOnError named metadata incomplete same _ =>
    obtain rfl := Option.some.inj taken
    obtain rfl := Option.some.inj taken'
    exact ⟨Or.inr ⟨filter, filter', rfl, rfl, named, metadata, incomplete, same⟩, Or.inl ⟨rfl, rfl⟩⟩

/-- The turn of an entry with a name -/
theorem Gathers.named (gathers : Gathers env config calls entry before after) (found : metaEntryName entry = .ok name)
    (sound : before.world.Sound) : ∃ ready, entry = metaLeaf name ∧ nameIsValid name = true ∧
      prepareEntry env config (metaLeaf name) before.world (calls entry) = .returned ready after.world [] ∧
      Prepares name (config.metaPathOf name) before.world before.world ready ready after.world after.world ∧
      before.take entry after.world ready = some after ∧ Widened before.world after.world := by
  obtain ⟨ready, world, run, taken⟩ := gathers
  obtain ⟨rfl, valid⟩ := metaEntryName_ok found
  obtain ⟨fine, rfl⟩ := Gathered.take_fine taken
  have prepares := prepareEntry_prepares valid sound run
  exact ⟨ready, rfl, valid, run, prepares, taken, (prepares.settled (twin_refl _ _) sound sound fine).2.1⟩

theorem Gathers.keeps (gathers : Gathers env config calls entry before after) (sound : before.Sound) :
    after.Sound := by
  cases found : metaEntryName entry with
  | error errno =>
    rw [(gathers.ignored fun name => by rw [found]; nofun).2]
    exact sound
  | ok name =>
    obtain ⟨ready, -, valid, -, prepares, taken, widened⟩ := gathers.named found sound.pins
    have held : ∀ filter ∈ before.items, filter.mapFd < after.world.maps.length :=
      fun filter member => lt_of_lt_of_le (sound.maps filter member) widened.maps.length_le
    rcases (prepares.taken taken taken).1 with ⟨items, -⟩ | ⟨filter, filter', items, -, own, -, -, kernel, there, -⟩
    · exact ⟨widened.sound, items ▸ held, items ▸ sound.named⟩
    · refine ⟨widened.sound, ?_, ?_⟩
      · intro other member
        rw [items] at member
        rcases List.mem_append.mp member with old | new
        · exact held other old
        · rw [List.mem_singleton.mp new]
          exact (List.getElem?_eq_some_iff.mp there).1
      · intro other member
        rw [items] at member
        rcases List.mem_append.mp member with old | new
        · exact sound.named other old
        · rw [List.mem_singleton.mp new, own]
          exact valid

/-- What is shown for a name that a turn does not touch -/
theorem Gathered.shown_apart (sound : before.Sound) (widened : Widened before.world after.world)
    (apart : Apart name before.world after.world)
    (items : (after.items.filter fun filter => filter.name == name) = before.items.filter fun filter =>
      filter.name == name)
    (aside : after.aside.count (metaLeaf name) = before.aside.count (metaLeaf name)) :
    after.shown name = before.shown name := by
  unfold Gathered.shown
  congr 1
  · unfold World.served
    rw [items]
    apply List.map_congr_left
    intro filter member
    have bound := sound.maps filter (List.mem_filter.mp member).1
    obtain ⟨more, grown⟩ := widened.maps
    rw [← grown, List.getElem?_append_left bound]
  · funext loc
    split
    · rename_i leaf
      exact apart.files loc leaf
    · rfl
  · funext loc
    split
    · rename_i leaf
      exact apart.logs loc leaf
    · rfl
  · funext loc
    split
    · rename_i leaf
      exact pinned_widened sound.pins (apart.pins loc leaf) widened.maps
    · rfl

theorem Gathers.frame {entry' : Bytes} (gathers : Gathers env config calls entry before after) (sound : before.Sound)
    (different : entry' ≠ entry) : entryShown entry' after = entryShown entry' before := by
  unfold entryShown
  cases found' : metaEntryName entry' with
  | error errno => rfl
  | ok name' =>
    obtain ⟨rfl, _⟩ := metaEntryName_ok found'
    cases found : metaEntryName entry with
    | error errno => rw [(gathers.ignored fun name => by rw [found]; nofun).2]
    | ok name =>
      obtain ⟨ready, rfl, valid, run, prepares, taken, widened⟩ := gathers.named found sound.pins
      have other : name' ≠ name := fun same => different (congrArg metaLeaf same)
      have within := ((staysWithin_prepareEntry env config valid before.world).returned run).2
      have apart : Apart name' before.world after.world := within.apart other
      obtain ⟨items, aside⟩ := prepares.taken taken taken
      have served : (after.items.filter fun filter => filter.name == name') =
          before.items.filter fun filter => filter.name == name' := by
        rcases items with ⟨same, -⟩ | ⟨filter, _, grown, -, own, -⟩
        · rw [same]
        · have skipped : (filter.name == name') = false := by
            rw [own]
            simpa using Ne.symm other
          rw [grown, List.filter_append, List.filter_cons_of_neg (by simp [skipped]), List.filter_nil, List.append_nil]
      have counted : after.aside.count (metaLeaf name') = before.aside.count (metaLeaf name') := by
        rcases aside with ⟨same, -⟩ | ⟨grown, -⟩
        · rw [same]
        · rw [grown, List.count_cons_of_ne (Ne.symm different)]
      simp only
      rw [Gathered.shown_apart sound widened apart served counted]

/-- The turns of a load are separate. -/
theorem separate_gathers (env : Env) (config : Config) (calls : Bytes → List Answer) :
    Separate entryShown Gathered.Sound (Gathers env config calls) :=
  ⟨fun gathers sound => gathers.keeps sound, fun gathers sound different => gathers.frame sound different⟩

theorem enables_gathers {start : Gathered} (reads : env'.reads = env.reads)
    (alike : ∀ entry, List.Forall₂ Answer.Alike (calls entry) (calls' entry)) :
    Enables entryShown Gathered.Sound start (Gathers env config calls) (Gathers env' config calls') := by
  intro entry before after other sound sound' same same' gathers
  cases found : metaEntryName entry with
  | error errno =>
    have unnamed : ∀ name, metaEntryName entry ≠ .ok name := fun name => by rw [found]; nofun
    have none : calls' entry = [] := by
      have pairs := alike entry
      rw [(gathers.ignored unnamed).1] at pairs
      exact List.forall₂_nil_left_iff.mp pairs
    refine ⟨other, .nothing, other.world, ?_, rfl⟩
    rw [prepareEntry_ignored unnamed, none]
    rfl
  | ok name =>
    obtain ⟨ready, rfl, valid, run, -, taken, -⟩ := gathers.named found sound.pins
    have shown : before.shown name = other.shown name := by
      have both := same.trans same'.symm
      simpa only [entryShown, found, Option.some.injEq] using both
    obtain ⟨ready', later', again, prepares⟩ :=
      prepareEntry_follows reads valid (Gathered.twin shown) sound.pins sound'.pins (alike _) run
    have fine := (Gathered.take_fine taken).1
    generalize after.world = later at prepares
    cases prepares with
    | nothing => exact ⟨_, _, _, again, rfl⟩
    | failed failure _ => exact absurd rfl (fine failure)
    | unmoved paired => exact ⟨_, _, _, again, rfl⟩
    | moved _ _ _ => exact ⟨_, _, _, again, rfl⟩
    | filter _ _ _ _ _ _ _ _ _ => exact ⟨_, _, _, again, rfl⟩

/-- The filters of a name stay served while maps are added. -/
theorem World.served_widened {items : List Filter} {world later : World} (widened : Widened world later)
    (bound : ∀ filter ∈ items, filter.mapFd < world.maps.length) (name : Bytes) :
    later.served items name = world.served items name := by
  apply List.map_congr_left
  intro filter member
  obtain ⟨more, grown⟩ := widened.maps
  rw [← grown, List.getElem?_append_left (bound filter (List.mem_filter.mp member).1)]

theorem World.served_append (world : World) (items : List Filter) {filter : Filter} (named : filter.name = name) :
    world.served (items ++ [filter]) name =
      world.served items name ++ [⟨filter.metadata, world.maps[filter.mapFd]?, filter.logHistoryIncomplete⟩] := by
  simp [World.served, named]

theorem shown_of_twin (twin : Twin name after.world reached.world)
    (serves : after.world.served after.items name = reached.world.served reached.items name)
    (aside : after.aside.count (metaLeaf name) = reached.aside.count (metaLeaf name)) :
    after.shown name = reached.shown name := by
  unfold Gathered.shown
  congr 1
  · funext loc
    split
    · rename_i leaf
      exact twin.files loc leaf
    · rfl
  · funext loc
    split
    · rename_i leaf
      exact twin.logs loc leaf
    · rfl
  · funext loc
    split
    · rename_i leaf
      exact twin.pins loc leaf
    · rfl

theorem agrees_gathers {start : Gathered} (reads : env'.reads = env.reads)
    (alike : ∀ entry, List.Forall₂ Answer.Alike (calls entry) (calls' entry)) :
    CrashLogic.Agrees entryShown Gathered.Sound start (Gathers env config calls) (Gathers env' config calls') := by
  intro entry before after other reached sound sound' same same' gathers gathers'
  cases found : metaEntryName entry with
  | error errno =>
    have unnamed : ∀ name, metaEntryName entry ≠ .ok name := fun name => by rw [found]; nofun
    rw [(gathers.ignored unnamed).2, (gathers'.ignored unnamed).2]
    exact same.trans same'.symm
  | ok name =>
    obtain ⟨ready, rfl, valid, run, -, taken, widened⟩ := gathers.named found sound.pins
    obtain ⟨ready', -, -, run', -, taken', widened'⟩ := gathers'.named found sound'.pins
    have shown : before.shown name = other.shown name := by
      have both := same.trans same'.symm
      simpa only [entryShown, found, Option.some.injEq] using both
    have served : before.world.served before.items name = other.world.served other.items name :=
      congrArg Shown.served shown
    have aside : before.aside.count (metaLeaf name) = other.aside.count (metaLeaf name) := congrArg Shown.aside shown
    have twin := Gathered.twin shown
    obtain ⟨_, _, again, prepares⟩ := prepareEntry_follows reads valid twin sound.pins sound'.pins (alike _) run
    rw [run'] at again
    obtain ⟨rfl, rfl, -⟩ := Stop.returned.inj again
    have fine := (Gathered.take_fine taken).1
    have twinLater := (prepares.settled twin sound.pins sound'.pins fine).1
    have serves : after.world.served before.items name = reached.world.served other.items name := by
      rw [World.served_widened widened sound.maps, World.served_widened widened' sound'.maps]
      exact served
    simp only [entryShown, found, Option.some.injEq]
    obtain ⟨items, asides⟩ := prepares.taken taken taken'
    apply shown_of_twin twinLater
    · rcases items with ⟨kept, kept'⟩ |
        ⟨filter, filter', grown, grown', own, metadata, incomplete, kernel, there, there'⟩
      · rw [kept, kept']
        exact serves
      · have own' : filter'.name = name := (congrArg (fun metadata => metadata.toMetaRecord.name) metadata).trans own
        rw [grown, grown', World.served_append _ _ own, World.served_append _ _ own', serves, metadata,
          incomplete, there,
          there']
    · rcases asides with ⟨kept, kept'⟩ | ⟨grown, grown'⟩
      · rw [kept, kept']
        exact aside
      · rw [grown, grown', List.count_cons_self, List.count_cons_self, aside]

end Steps

/-- The path of a metadata file that was set aside at some time -/
def Config.staleOf (config : Config) (name : Bytes) (now : Nat) : Bytes := (FileKind.quarantined now).path config name

/-- A valid name whose metadata file was there and is gone -/
structure Removed (config : Config) (begun after : World) (name : Bytes) : Prop where
  valid : nameIsValid name = true
  present : begun.fileAt (config.metaPathOf name) ≠ none
  gone : after.fileAt (config.metaPathOf name) = none

/-- The files of a world in which some metadata files were renamed, each with the time that
`stamp` gives for its name -/
structure Renamed (config : Config) (begun after : World) (stamp : Bytes → Nat) : Prop where
  copies : ∀ name, Removed config begun after name →
    after.fileAt (config.staleOf name (stamp name)) = begun.fileAt (config.metaPathOf name)
  others : ∀ loc, (∀ name, Removed config begun after name →
      loc ≠ resolve (config.metaPathOf name) ∧ loc ≠ resolve (config.staleOf name (stamp name))) →
    after.files.lookup loc = begun.files.lookup loc

section Files

variable {env : Env} {config : Config} {calls : Bytes → List Answer} {entries : List Bytes} {entry name other : Bytes}
  {before after : Gathered} {begun middle last : World}

theorem Gathers.files (gathers : Gathers env config calls entry before after) (sound : before.Sound) :
    after.world.files = before.world.files ∨ ∃ name now, nameIsValid name = true ∧
      SetAside (config.metaPathOf name) before.world after.world now := by
  cases found : metaEntryName entry with
  | error errno =>
    rw [(gathers.ignored fun name => by rw [found]; nofun).2]
    exact Or.inl rfl
  | ok name =>
    obtain ⟨ready, -, valid, -, prepares, taken, -⟩ := gathers.named found sound.pins
    generalize after.world = later at prepares taken ⊢
    cases prepares with
    | nothing => exact Or.inl rfl
    | failed failure _ => cases taken
    | unmoved paired => exact Or.inl paired.files
    | moved _ _ _ now _ aside _ => exact Or.inr ⟨name, now, valid, aside⟩
    | filter _ _ _ _ _ _ _ _ paired => exact Or.inl paired.files

theorem resolve_path_ne {kind kind' : FileKind} (valid : nameIsValid name = true) (valid' : nameIsValid other = true)
    (different : kind ≠ kind' ∨ name ≠ other) :
    resolve (kind.path config name) ≠ resolve (kind'.path config other) := by
  intro same
  have leaves := congrArg Loc.leaf same
  rw [FileKind.leaf_path config kind valid, FileKind.leaf_path config kind' valid'] at leaves
  obtain ⟨kinds, names⟩ := FileKind.leaf_injective valid valid' leaves
  rcases different with other | other
  · exact other kinds
  · exact other names

theorem resolve_metaPathOf_ne_staleOf (config : Config) (valid : nameIsValid name = true)
    (valid' : nameIsValid other = true)
    (now : Nat) : resolve (config.metaPathOf name) ≠ resolve (config.staleOf other now) :=
  @resolve_path_ne config name other .metadata (.quarantined now) valid valid' (Or.inl nofun)

theorem resolve_metaPathOf_ne (config : Config) (valid : nameIsValid name = true) (valid' : nameIsValid other = true)
    (different : name ≠ other) : resolve (config.metaPathOf name) ≠ resolve (config.metaPathOf other) :=
  @resolve_path_ne config name other .metadata .metadata valid valid' (Or.inr different)

theorem resolve_staleOf_ne (config : Config) (valid : nameIsValid name = true) (valid' : nameIsValid other = true)
    (different : name ≠ other) (now later : Nat) :
    resolve (config.staleOf name now) ≠ resolve (config.staleOf other later) :=
  @resolve_path_ne config name other (.quarantined now) (.quarantined later) valid valid' (Or.inr different)

/-- What the rename of one metadata file shows -/
theorem SetAside.shows {now : Nat} (aside : SetAside (config.metaPathOf name) begun middle now)
    (valid : nameIsValid name = true) : begun.fileAt (config.metaPathOf name) ≠ none ∧
      middle.fileAt (config.metaPathOf name) = none ∧
      middle.fileAt (config.staleOf name now) = begun.fileAt (config.metaPathOf name) ∧
      ∀ loc, loc ≠ resolve (config.metaPathOf name) → loc ≠ resolve (config.staleOf name now) →
        middle.files.lookup loc = begun.files.lookup loc := by
  obtain ⟨file, present, files⟩ := aside
  have files : middle.files =
      (begun.files.erase (resolve (config.metaPathOf name))).insert (resolve (config.staleOf name now)) file := files
  refine ⟨by rw [present]; nofun, ?_, ?_, ?_⟩
  · rw [World.fileAt, files, AList.lookup_insert_ne (resolve_metaPathOf_ne_staleOf config valid valid now),
      AList.lookup_erase]
  · rw [World.fileAt, files, AList.lookup_insert, present]
  · intro loc free copy
    rw [files, AList.lookup_insert_ne copy, AList.lookup_erase_ne free]

theorem Renamed.refl (config : Config) (world : World) : Renamed config world world fun _ => 0 :=
  ⟨fun _ removed => absurd removed.gone removed.present, fun _ _ => rfl⟩

theorem Removed.same {begun' : World} (files : begun'.files = begun.files)
    (removed : Removed config begun' last name) : Removed config begun last name := by
  refine ⟨removed.valid, ?_, removed.gone⟩
  have present := removed.present
  rw [World.fileAt, files] at present
  exact present

theorem Renamed.unmoved {stamp : Bytes → Nat} (renamed : Renamed config middle last stamp)
    (files : middle.files = begun.files) : Renamed config begun last stamp := by
  constructor
  · intro name removed
    rw [renamed.copies name (removed.same files.symm), World.fileAt, files]
    rfl
  · intro loc free
    rw [renamed.others loc fun name removed => free name (removed.same files), files]

theorem Renamed.moved {stamp : Bytes → Nat} {now : Nat} (renamed : Renamed config middle last stamp)
    (valid : nameIsValid name = true) (aside : SetAside (config.metaPathOf name) begun middle now) :
    Renamed config begun last (Function.update stamp name now) := by
  obtain ⟨present, gone, copied, kept⟩ := aside.shows valid
  -- The name is not removed again, and every other name looks as before.
  have others : ∀ other, Removed config middle last other → other ≠ name :=
    fun other removed same => removed.present (same ▸ gone)
  have before : ∀ other, nameIsValid other = true → other ≠ name →
      middle.fileAt (config.metaPathOf other) = begun.fileAt (config.metaPathOf other) :=
    fun other valid' different => kept _ (resolve_metaPathOf_ne config valid' valid different)
      (resolve_metaPathOf_ne_staleOf config valid' valid now)
  have lifts : ∀ other, Removed config middle last other → Removed config begun last other := by
    intro other removed
    refine ⟨removed.valid, ?_, removed.gone⟩
    rw [← before other removed.valid (others other removed)]
    exact removed.present
  have still : last.fileAt (config.metaPathOf name) = none := by
    refine (renamed.others _ fun other removed => ?_).trans gone
    exact ⟨resolve_metaPathOf_ne config valid removed.valid (Ne.symm (others other removed)),
      resolve_metaPathOf_ne_staleOf config valid removed.valid _⟩
  constructor
  · intro other removed
    by_cases same : other = name
    · subst same
      rw [Function.update_self, ← copied]
      apply renamed.others
      intro third removed'
      exact ⟨Ne.symm (resolve_metaPathOf_ne_staleOf config removed'.valid valid now),
        resolve_staleOf_ne config valid removed'.valid (Ne.symm (others third removed')) _ _⟩
    · rw [Function.update_of_ne same, ← before other removed.valid same]
      apply renamed.copies
      refine ⟨removed.valid, ?_, removed.gone⟩
      rw [before other removed.valid same]
      exact removed.present
  · intro loc free
    have own := free name ⟨valid, present, still⟩
    rw [Function.update_self] at own
    rw [← kept loc own.1 own.2]
    apply renamed.others
    intro other removed
    have away := free other (lifts other removed)
    rw [Function.update_of_ne (others other removed)] at away
    exact away

/-- All turns of a load together rename metadata files and leave the other files alone. -/
theorem renamed_of_runs (runs : Runs (Gathers env config calls) entries before after) (sound : before.Sound) :
    ∃ stamp, Renamed config before.world after.world stamp := by
  induction runs with
  | done state => exact ⟨_, .refl config state.world⟩
  | next first others ih =>
    obtain ⟨stamp, renamed⟩ := ih (first.keeps sound)
    rcases first.files sound with same | ⟨name, now, valid, aside⟩
    · exact ⟨stamp, renamed.unmoved same⟩
    · exact ⟨_, renamed.moved valid aside⟩

end Files

/-- What the calls of a load meet, each as far as its path and its parameters tell: the
listing, the calls for each entry, and the growth of the set from each capacity -/
structure Oracle where
  lists : Answer
  calls : Bytes → List Answer
  grows : Nat → Answer

/-- Two oracles that differ at most in what the clock shows -/
structure Oracle.Alike (oracle oracle' : Oracle) : Prop where
  lists : oracle.lists.refusal = oracle'.lists.refusal
  calls : ∀ entry, List.Forall₂ Answer.Alike (oracle.calls entry) (oracle'.calls entry)
  grows : ∀ capacity, (oracle.grows capacity).refusal = (oracle'.grows capacity).refusal

/-- The turns of a load that succeeds, with the answers of the oracle -/
inductive LoadsBy (oracle : Oracle) (env : Env) (config : Config) :
    List Bytes → Loading → World → List Answer → Loading → World → Prop where
  | done (loading : Loading) (world : World) : LoadsBy oracle env config [] loading world [] loading world
  | next {entry : Bytes} {rest : List Bytes} {loading middle later : Loading} {world between after last : World}
      {ready : Ready} {memory answers : List Answer}
      (calls : prepareEntry env config entry world (oracle.calls entry) = .returned ready between [])
      (ends : finishEntry loading ready between memory = .returned (.ok (), middle) after [])
      (grows : ∀ answer ∈ memory, answer = oracle.grows loading.set.cap)
      (others : LoadsBy oracle env config rest middle after answers later last) :
      LoadsBy oracle env config (entry :: rest) loading world (oracle.calls entry ++ (memory ++ answers)) later last

/-- The capacity of a set after so many additions -/
def capacityAfter : Nat → Nat
  | 0 => 0
  | count + 1 =>
    if count = capacityAfter count then if capacityAfter count = 0 then 8 else capacityAfter count * 2
    else capacityAfter count

def FilterSet.Grown (set : FilterSet) : Prop := set.cap = capacityAfter set.items.length

section Turns

variable {oracle : Oracle} {env : Env} {config : Config} {loading middle : Loading} {world after : World}
  {memory rest : List Answer} {entries : List Bytes} {aside : List Bytes}

/-- How a turn ends that does not fail -/
inductive Ends (grows : Nat → Answer) (loading : Loading) : Ready → List Answer → Loading → Prop where
  | nothing : Ends grows loading .nothing [] loading
  | aside : Ends grows loading .aside []
      { loading with stats := { loading.stats with orphanMeta := loading.stats.orphanMeta + 1 } }
  | kept (record : FilterMeta) (filter : Filter) (unpinOnError : Bool)
      (room : loading.set.items.length ≠ loading.set.cap) : Ends grows loading (.filter record filter unpinOnError) []
        ⟨{ loading.set with items := loading.set.items ++ [filter], lastIndex := some loading.set.items.length },
          { loading.stats with filtersLoaded := loading.stats.filtersLoaded + 1 }⟩
  | grown (record : FilterMeta) (filter : Filter) (unpinOnError : Bool)
      (full : loading.set.items.length = loading.set.cap) (given : (grows loading.set.cap).refusal = none) :
      Ends grows loading (.filter record filter unpinOnError) [grows loading.set.cap]
        ⟨⟨loading.set.items ++ [filter], if loading.set.cap = 0 then 8 else loading.set.cap * 2,
          some loading.set.items.length⟩, { loading.stats with filtersLoaded := loading.stats.filtersLoaded + 1 }⟩

theorem ends_of_finishEntry {ready : Ready}
    (run : finishEntry loading ready world memory = .returned (.ok (), middle) after [])
    (grows : ∀ answer ∈ memory, answer = oracle.grows loading.set.cap) :
    after = world ∧ Ends oracle.grows loading ready memory middle := by
  cases ready with
  | nothing =>
    obtain ⟨pair, rfl, rfl⟩ := Stop.returned.inj run
    obtain rfl := (Prod.mk.inj pair).2
    exact ⟨rfl, .nothing⟩
  | aside =>
    obtain ⟨pair, rfl, rfl⟩ := Stop.returned.inj run
    obtain rfl := (Prod.mk.inj pair).2
    exact ⟨rfl, .aside⟩
  | failed failure =>
    obtain ⟨pair, -, -⟩ := Stop.returned.inj run
    cases (Prod.mk.inj pair).1
  | filter record filter unpinOnError =>
    by_cases full : loading.set.items.length = loading.set.cap
    · simp only [finishEntry, filterSetAdd, full, ↓reduceIte, bind_assoc] at run
      cases memory with
      | nil => cases run
      | cons answer more =>
        obtain rfl := grows answer List.mem_cons_self
        cases given : (oracle.grows loading.set.cap).refusal with
        | some errno =>
          simp only [bind_apply, sysRealloc, sysSilent, attempt, call, given, pure_apply] at run
          split at run
          · obtain ⟨pair, -, -⟩ := Stop.returned.inj run
            cases (Prod.mk.inj pair).1
          · cases run
        | none =>
          simp only [bind_apply, sysRealloc, sysSilent, attempt, call, given, pure_apply] at run
          obtain ⟨pair, rfl, rfl⟩ := Stop.returned.inj run
          obtain rfl := (Prod.mk.inj pair).2
          exact ⟨rfl, full ▸ .grown record filter unpinOnError full given⟩
    · simp only [finishEntry, filterSetAdd, full, ↓reduceIte] at run
      obtain ⟨pair, rfl, rfl⟩ := Stop.returned.inj run
      obtain rfl := (Prod.mk.inj pair).2
      exact ⟨rfl, .kept record filter unpinOnError full⟩

theorem Ends.finishEntry {ready : Ready} (ends : Ends oracle.grows loading ready memory middle) (world : World)
    (rest : List Answer) : Bloomd.finishEntry loading ready world (memory ++ rest) =
      .returned (.ok (), middle) world rest := by
  cases ends with
  | nothing => rfl
  | aside => rfl
  | kept record filter unpinOnError room =>
    simp only [Bloomd.finishEntry, filterSetAdd, room, ↓reduceIte]
    rfl
  | grown record filter unpinOnError full given =>
    simp only [Bloomd.finishEntry, filterSetAdd, if_pos full, bind_assoc]
    simp only [bind_apply, sysRealloc, sysSilent, attempt, call, List.cons_append, List.nil_append, given]
    rfl

theorem capacityAfter_succ (count : Nat) : capacityAfter (count + 1) =
    if count = capacityAfter count then if capacityAfter count = 0 then 8 else capacityAfter count * 2
    else capacityAfter count := rfl

/-- The growths that a set of this size still needs up to that size are granted. -/
def Granted (grows : Nat → Answer) (first last : Nat) : Prop :=
  ∀ count, first ≤ count → count < last → count = capacityAfter count → (grows count).refusal = none

theorem Granted.trans {grows : Nat → Answer} {first middle last : Nat} (left : Granted grows first middle)
    (right : Granted grows middle last) : Granted grows first last := by
  intro count low high full
  by_cases before : count < middle
  · exact left count low before full
  · exact right count (Nat.not_lt.mp before) high full

/-- What the end of a turn adds up to -/
structure Adds (grows : Nat → Answer) (loading middle : Loading) (aside aside' : List Bytes) : Prop where
  orphans : middle.stats.orphanMeta + aside.length = loading.stats.orphanMeta + aside'.length
  loaded : middle.stats.filtersLoaded + loading.set.items.length =
    loading.stats.filtersLoaded + middle.set.items.length
  more : loading.set.items.length ≤ middle.set.items.length
  grown : middle.set.Grown
  granted : Granted grows loading.set.items.length middle.set.items.length

theorem Adds.trans {grows : Nat → Answer} {last : Loading} {aside aside' aside'' : List Bytes}
    (first : Adds grows loading middle aside aside') (second : Adds grows middle last aside' aside'') :
    Adds grows loading last aside aside'' := by
  have orphans := first.orphans
  have orphans' := second.orphans
  have loaded := first.loaded
  have loaded' := second.loaded
  exact ⟨by omega, by omega, first.more.trans second.more, second.grown, first.granted.trans second.granted⟩

theorem Ends.take {grows : Nat → Answer} {ready : Ready} (ends : Ends grows loading ready memory middle)
    (grown : loading.set.Grown) (entry : Bytes) (aside : List Bytes) (world after : World) :
    ∃ aside', (⟨loading.set.items, aside, world⟩ : Gathered).take entry after ready =
      some ⟨middle.set.items, aside', after⟩ ∧
      Adds grows loading middle aside aside' := by
  cases ends with
  | nothing =>
    exact ⟨aside, rfl, rfl, rfl, le_rfl, grown, fun count low high => absurd high (Nat.not_lt.mpr low)⟩
  | aside =>
    refine ⟨entry :: aside, rfl, ?_, rfl, le_rfl, grown, fun count low high => absurd high (Nat.not_lt.mpr low)⟩
    simp only [List.length_cons]
    omega
  | kept record filter unpinOnError room =>
    have room : loading.set.items.length ≠ capacityAfter loading.set.items.length :=
      fun full => room (full.trans grown.symm)
    refine ⟨aside, rfl, rfl, ?_, ?_, ?_, ?_⟩
    · simp only [List.length_append, List.length_singleton]
      omega
    · simp
    · simp only [FilterSet.Grown, List.length_append, List.length_singleton, capacityAfter_succ, if_neg room]
      exact grown
    · intro count low high full
      simp only [List.length_append, List.length_singleton] at high
      obtain rfl : count = loading.set.items.length := by omega
      exact absurd full room
  | grown record filter unpinOnError full given =>
    have full' : loading.set.items.length = capacityAfter loading.set.items.length := full.trans grown
    refine ⟨aside, rfl, rfl, ?_, ?_, ?_, ?_⟩
    · simp only [List.length_append, List.length_singleton]
      omega
    · simp
    · have same : loading.set.cap = capacityAfter loading.set.items.length := grown
      simp only [FilterSet.Grown, List.length_append, List.length_singleton, capacityAfter_succ, if_pos full', same]
    · intro count low high _
      simp only [List.length_append, List.length_singleton] at high
      obtain rfl : count = loading.set.items.length := by omega
      rw [full]
      exact given

theorem LoadsBy.gathers {answers : List Answer} {later : Loading} {last : World}
    (loads : LoadsBy oracle env config entries loading world answers later last) (grown : loading.set.Grown)
    (aside : List Bytes) : ∃ aside', Runs (Gathers env config oracle.calls) entries ⟨loading.set.items, aside, world⟩
        ⟨later.set.items, aside', last⟩ ∧ Adds oracle.grows loading later aside aside' := by
  induction loads generalizing aside with
  | done loading world =>
    exact ⟨aside, .done _, rfl, rfl, le_rfl, grown, fun count low high => absurd high (Nat.not_lt.mpr low)⟩
  | @next entry _ loading _ _ world between _ _ _ _ _ calls ends grows others ih =>
    obtain ⟨rfl, ended⟩ := ends_of_finishEntry ends grows
    obtain ⟨aside', taken, adds⟩ := ended.take grown entry aside world _
    obtain ⟨last, runs, more⟩ := ih adds.grown aside'
    exact ⟨last, .next ⟨_, _, calls, taken⟩ runs, adds.trans more⟩

theorem ends_of_take {grows : Nat → Answer} {ready : Ready} {entry : Bytes} {taken : Gathered}
    (grown : loading.set.Grown)
    (takes : (⟨loading.set.items, aside, world⟩ : Gathered).take entry after ready = some taken)
    (granted : Granted grows loading.set.items.length taken.items.length) :
    ∃ memory middle, Ends grows loading ready memory middle ∧ middle.set.items = taken.items := by
  cases ready with
  | nothing =>
    obtain rfl := Option.some.inj takes
    exact ⟨_, _, .nothing, rfl⟩
  | aside =>
    obtain rfl := Option.some.inj takes
    exact ⟨_, _, .aside, rfl⟩
  | failed failure => cases takes
  | filter record filter unpinOnError =>
    obtain rfl := Option.some.inj takes
    by_cases full : loading.set.items.length = loading.set.cap
    · have given := granted loading.set.items.length le_rfl (by simp) (full.trans grown)
      exact ⟨_, _, .grown record filter unpinOnError full (full ▸ given), rfl⟩
    · exact ⟨_, _, .kept record filter unpinOnError full, rfl⟩

theorem length_of_runs {calls : Bytes → List Answer} {before after : Gathered}
    (runs : Runs (Gathers env config calls) entries before after) : before.items.length ≤ after.items.length := by
  induction runs with
  | done state => exact le_rfl
  | next first others ih =>
    obtain ⟨ready, world, _, taken⟩ := first
    refine le_trans ?_ ih
    cases ready with
    | failed failure => cases taken
    | nothing =>
      obtain rfl := Option.some.inj taken
      exact le_rfl
    | aside =>
      obtain rfl := Option.some.inj taken
      exact le_rfl
    | filter record filter unpinOnError =>
      obtain rfl := Option.some.inj taken
      simp

theorem loadsBy_of_runs {before after : Gathered}
    (runs : Runs (Gathers env config oracle.calls) entries before after) :
    ∀ loading : Loading, loading.set.items = before.items → loading.set.Grown →
      Granted oracle.grows before.items.length after.items.length →
      ∃ answers later, LoadsBy oracle env config entries loading before.world answers later after.world := by
  induction runs with
  | done state => exact fun loading _ _ _ => ⟨[], loading, .done loading state.world⟩
  | @next entry rest before middle after first others ih =>
    intro loading items grown granted
    have more := length_of_runs others
    have fewer := length_of_runs (.next first (.done middle))
    obtain ⟨ready, world, run, taken⟩ := first
    have taken' : (⟨loading.set.items, before.aside, before.world⟩ : Gathered).take entry world ready =
        some middle := by
      rw [items]
      exact taken
    obtain ⟨memory, between, ends, same⟩ :=
      @ends_of_take loading before.world world before.aside oracle.grows ready entry
      middle grown taken' fun count low high => granted count (items ▸ low) (high.trans_le more)
    obtain ⟨aside', taken'', adds⟩ := ends.take grown entry before.aside before.world world
    have reached : middle.world = world := (Gathered.take_fine taken).2
    obtain ⟨answers, later, loads⟩ :=
      ih between same adds.grown fun count low high => granted count (fewer.trans low) high
    rw [reached] at loads
    refine ⟨_, later, .next run (by simpa using ends.finishEntry world []) ?_ loads⟩
    intro answer member
    cases ends with
    | nothing => cases member
    | aside => cases member
    | kept _ _ _ _ => cases member
    | grown _ _ _ full _ => exact List.mem_singleton.mp member

theorem prepareEntry_longer {entry : Bytes} {ready : Ready} {answers : List Answer} {later : World}
    (sound : world.Sound)
    (run : prepareEntry env config entry world answers = .returned ready later []) (rest : List Answer) :
    prepareEntry env config entry world (answers ++ rest) = .returned ready later rest := by
  cases found : metaEntryName entry with
  | error errno =>
    rw [prepareEntry_ignored fun name => by rw [found]; nofun] at run ⊢
    obtain ⟨rfl, rfl, rfl⟩ := Stop.returned.inj run
    rfl
  | ok name =>
    obtain ⟨rfl, valid⟩ := metaEntryName_ok found
    obtain ⟨used, split, continues⟩ :=
      (simulates_prepareEntry rfl valid (twin_refl name world) sound sound).run run
    rw [List.append_nil] at split
    subst split
    obtain ⟨ready', later', _, finished⟩ := continues answers (forall₂_refl answers)
    have exact := finished []
    rw [List.append_nil, run] at exact
    obtain ⟨rfl, rfl, -⟩ := Stop.returned.inj exact
    exact finished rest

/-- A turn whose calls meet the answers of the oracle -/
theorem loadEntry_turn {entry : Bytes} {ready : Ready} {between : World}
    (calls : prepareEntry env config entry world (oracle.calls entry) = .returned ready between [])
    (sound : Gathered.Sound ⟨loading.set.items, aside, world⟩)
    (fresh : ∀ filter ∈ loading.set.items, metaLeaf filter.name ≠ entry) (rest : List Answer) :
    loadEntry env config entry loading world (oracle.calls entry ++ rest) =
      finishEntry loading ready between rest := by
  have missing : ∀ name, metaEntryName entry = .ok name → (loading.set.findN name).1 = none := by
    intro name found
    obtain ⟨rfl, valid⟩ := metaEntryName_ok found
    apply FilterSet.findN_of_named sound.named valid
    apply List.filter_eq_nil_iff.mpr
    intro filter member same
    exact fresh filter member (congrArg metaLeaf (eq_of_beq same))
  rw [loadEntry_prepared env config missing, bind_apply, prepareEntry_longer sound.pins calls rest]

/-- A turn that does not fail, before the other turns -/
theorem loadEntries_next {entry : Bytes} {others : List Bytes} {ready : Ready} {between : World}
    (calls : prepareEntry env config entry world (oracle.calls entry) = .returned ready between [])
    (sound : Gathered.Sound ⟨loading.set.items, aside, world⟩)
    (fresh : ∀ filter ∈ loading.set.items, metaLeaf filter.name ≠ entry)
    (ends : Ends oracle.grows loading ready memory middle)
    (rest : List Answer) :
    loadEntries env config (entry :: others) loading world (oracle.calls entry ++ (memory ++ rest)) =
      loadEntries env config others middle between rest := by
  rw [loadEntries, bind_apply, loadEntry_turn calls sound fresh (memory ++ rest), ends.finishEntry between rest]

theorem Gathers.fresh {calls : Bytes → List Answer} {entry : Bytes} {before after : Gathered}
    (gathers : Gathers env config calls entry before after) (sound : before.Sound) (unique : entry ∉ entries)
    (fresh : ∀ filter ∈ before.items, metaLeaf filter.name ∉ entries) :
    ∀ filter ∈ after.items, metaLeaf filter.name ∉ entries := by
  cases found : metaEntryName entry with
  | error errno =>
    rw [(gathers.ignored fun name => by rw [found]; nofun).2]
    exact fresh
  | ok name =>
    obtain ⟨ready, rfl, _, _, prepares, taken, _⟩ := gathers.named found sound.pins
    rcases (prepares.taken taken taken).1 with ⟨items, -⟩ | ⟨filter, _, items, -, own, -⟩
    · rw [items]
      exact fresh
    · intro other member
      rw [items] at member
      rcases List.mem_append.mp member with old | new
      · exact fresh other old
      · rw [List.mem_singleton.mp new, own]
        exact unique

/-- A load by an oracle is a run of the loop. -/
theorem LoadsBy.run {answers : List Answer} {later : Loading} {last : World}
    (loads : LoadsBy oracle env config entries loading world answers later last) (unique : entries.Nodup)
    (grown : loading.set.Grown) (sound : Gathered.Sound ⟨loading.set.items, [], world⟩)
    (fresh : ∀ filter ∈ loading.set.items, metaLeaf filter.name ∉ entries) :
    loadEntries env config entries loading world answers = .returned (.ok (), later) last [] := by
  induction loads with
  | done loading world => rfl
  | @next entry rest loading middle _ world between _ _ ready memory answers calls ends grows others ih =>
    obtain ⟨rfl, ended⟩ := ends_of_finishEntry ends grows
    obtain ⟨first, unique⟩ := List.nodup_cons.mp unique
    obtain ⟨aside', taken, adds⟩ := ended.take grown entry [] world _
    have gathers : Gathers env config oracle.calls entry _ _ := ⟨ready, _, calls, taken⟩
    have away : ∀ filter ∈ loading.set.items, metaLeaf filter.name ∉ rest :=
      fun filter member listed => fresh filter member (List.mem_cons_of_mem _ listed)
    rw [loadEntries_next calls sound (fun filter member same => fresh filter member (same ▸ List.mem_cons_self)) ended]
    have sound' := gathers.keeps sound
    exact ih unique adds.grown ⟨sound'.pins, sound'.maps, sound'.named⟩ (gathers.fresh sound first away)

end Turns

end Bloomd
