import Bloomd.InspectOrphans
import Bloomd.LoadOrder

/-! Two loads of one disk that list the metadata directory in different orders. -/

namespace Bloomd

open CrashLogic Prog

section Views

variable {env env' : Env} {config : Config} {calls calls' : Bytes → List Answer} {entries entries' : List Bytes}
  {entry name : Bytes} {before after after' : Gathered} {world : World}

/-- Logs and pins that are not named after a filter -/
structure Foreign (begun last : World) : Prop where
  logs : ∀ loc, (∀ name, nameIsValid name = true → loc.leaf ≠ logLeaf name) →
    last.logs.lookup loc = begun.logs.lookup loc
  pins : ∀ loc, nameIsValid loc.leaf = false → last.pinned loc = begun.pinned loc

theorem Gathers.foreign (gathers : Gathers env config calls entry before after) (sound : before.Sound) :
    Foreign before.world after.world := by
  cases found : metaEntryName entry with
  | error errno =>
    rw [(gathers.ignored fun name => by rw [found]; nofun).2]
    exact ⟨fun _ _ => rfl, fun _ _ => rfl⟩
  | ok name =>
    obtain ⟨ready, _, valid, run, _, _, widened⟩ := gathers.named found sound.pins
    have within := ((staysWithin_prepareEntry env config valid before.world).returned run).2
    constructor
    · exact fun loc foreign => within.logs loc (foreign name valid)
    · intro loc foreign
      apply pinned_widened sound.pins _ widened.maps
      apply within.pins loc
      intro own
      rw [own, valid] at foreign
      cases foreign

theorem foreign_of_runs (runs : Runs (Gathers env config calls) entries before after) (sound : before.Sound) :
    Foreign before.world after.world := by
  induction runs with
  | done state => exact ⟨fun _ _ => rfl, fun _ _ => rfl⟩
  | next first others ih =>
    have moved := first.foreign sound
    have later := ih (first.keeps sound)
    constructor
    · exact fun loc foreign => (later.logs loc foreign).trans (moved.logs loc foreign)
    · exact fun loc foreign => (later.pins loc foreign).trans (moved.pins loc foreign)

/-- What a load starts from -/
def Gathered.start (world : World) : Gathered := ⟨[], [], world⟩

theorem Gathered.sound_start (sound : world.Sound) : (Gathered.start world).Sound := ⟨sound, nofun, nofun⟩

def servedCount : Option Shown → Nat
  | some shown => shown.served.length
  | none => 0

def asideCount : Option Shown → Nat
  | some shown => shown.aside
  | none => 0

theorem World.length_served (items : List Filter) (name : Bytes) :
    (world.served items name).length = (items.filter fun filter => filter.name == name).length :=
  List.length_map _

/-- A turn that begins with nothing for its name adds what it shows in the end. -/
theorem Gathers.counted (gathers : Gathers env config calls entry before after) (sound : before.Sound)
    (fresh : entryShown entry before = entryShown entry (.start world)) :
    after.items.length = before.items.length + servedCount (entryShown entry after) ∧
      after.aside.length = before.aside.length + asideCount (entryShown entry after) := by
  cases found : metaEntryName entry with
  | error errno =>
    rw [(gathers.ignored fun name => by rw [found]; nofun).2]
    simp [entryShown, found, servedCount, asideCount]
  | ok name =>
    obtain ⟨ready, rfl, _, _, prepares, taken, _⟩ := gathers.named found sound.pins
    simp only [entryShown, found, Option.some.injEq] at fresh
    have none : (before.items.filter fun filter => filter.name == name).length = 0 := by
      rw [← @World.length_served before.world]
      exact congrArg List.length (congrArg Shown.served fresh)
    have unseen : before.aside.count (metaLeaf name) = 0 := congrArg Shown.aside fresh
    obtain ⟨items, aside⟩ := prepares.taken taken taken
    simp only [entryShown, found, servedCount, asideCount, Gathered.shown, World.length_served]
    constructor
    · rcases items with ⟨same, -⟩ | ⟨filter, _, grown, -, own, -⟩
      · rw [same, none, Nat.add_zero]
      · rw [grown, List.filter_append, List.length_append, List.length_append, none]
        simp [own]
    · rcases aside with ⟨same, -⟩ | ⟨grown, -⟩
      · rw [same, unseen, Nat.add_zero]
      · rw [grown, List.count_cons_self, unseen, List.length_cons]

theorem counts_of_runs (runs : Runs (Gathers env config calls) entries (.start world) after) (sound : world.Sound)
    (unique : entries.Nodup) :
    after.items.length = (entries.map fun entry => servedCount (entryShown entry after)).sum ∧
      after.aside.length = (entries.map fun entry => asideCount (entryShown entry after)).sum := by
  have separate := separate_gathers env config calls
  have fine := Gathered.sound_start sound
  constructor
  · have counted := Runs.count (.start world) (fun gathered => gathered.items.length) servedCount separate
      (fun good shown first => (first.counted good shown).1) runs fine unique fun _ _ => rfl
    rw [counted]
    exact Nat.zero_add _
  · have counted := Runs.count (.start world) (fun gathered => gathered.aside.length) asideCount separate
      (fun good shown first => (first.counted good shown).2) runs fine unique fun _ _ => rfl
    rw [counted]
    exact Nat.zero_add _

/-- Two runs that show the same in the end have gathered as much. -/
theorem lengths_agree (runs : Runs (Gathers env config calls) entries (.start world) after)
    (runs' : Runs (Gathers env' config calls') entries' (.start world) after') (sound : world.Sound)
    (unique : entries.Nodup) (permuted : entries.Perm entries')
    (shown : ∀ entry, entryShown entry after = entryShown entry after') :
    after.items.length = after'.items.length ∧ after.aside.length = after'.aside.length := by
  obtain ⟨items, aside⟩ := counts_of_runs runs sound unique
  obtain ⟨items', aside'⟩ := counts_of_runs runs' sound (permuted.nodup_iff.mp unique)
  simp only [shown] at items aside
  rw [items, items', aside, aside']
  exact ⟨(permuted.map _).sum_nat, (permuted.map _).sum_nat⟩

theorem shown_agrees (runs : Runs (Gathers env config calls) entries (.start world) after)
    (runs' : Runs (Gathers env' config calls') entries' (.start world) after') (sound : world.Sound)
    (reads : env'.reads = env.reads) (alike : ∀ entry, List.Forall₂ Answer.Alike (calls entry) (calls' entry))
    (unique : entries.Nodup) (permuted : entries.Perm entries') (entry : Bytes) :
    entryShown entry after = entryShown entry after' :=
  runs.agree runs' (separate_gathers env config calls) (separate_gathers env' config calls')
    (agrees_gathers reads alike) (Gathered.sound_start sound) unique permuted entry

end Views

/-- The answers of the turns of a load, up to its end or up to the turn that fails, are
those of the oracle. -/
inductive AnsweredBy (oracle : Oracle) (env : Env) (config : Config) :
    List Bytes → Loading → World → List Answer → Prop where
  | done (loading : Loading) (world : World) : AnsweredBy oracle env config [] loading world []
  | fails {entry : Bytes} {rest : List Bytes} {loading middle : Loading} {world between after : World} {ready : Ready}
      {memory : List Answer} {failure : Failure}
      (calls : prepareEntry env config entry world (oracle.calls entry) = .returned ready between [])
      (ends : finishEntry loading ready between memory = .returned (.error failure, middle) after [])
      (grows : ∀ answer ∈ memory.head?, answer = oracle.grows loading.set.cap) :
      AnsweredBy oracle env config (entry :: rest) loading world (oracle.calls entry ++ memory)
  | next {entry : Bytes} {rest : List Bytes} {loading middle : Loading} {world between after : World} {ready : Ready}
      {memory answers : List Answer}
      (calls : prepareEntry env config entry world (oracle.calls entry) = .returned ready between [])
      (ends : finishEntry loading ready between memory = .returned (.ok (), middle) after [])
      (grows : ∀ answer ∈ memory, answer = oracle.grows loading.set.cap)
      (others : AnsweredBy oracle env config rest middle after answers) :
      AnsweredBy oracle env config (entry :: rest) loading world (oracle.calls entry ++ (memory ++ answers))

/-- The set and the statistics before a load -/
def Loading.start : Loading := ⟨.init, .zero⟩

/-- A load, with whatever result, whose calls meet the answers of the oracle -/
def Loads (oracle : Oracle) (env : Env) (config : Config) (world : World) (result : Except Failure Unit)
    (loading : Loading) (after : World) : Prop :=
  ∃ answers, (oracle.lists.refusal = none →
      AnsweredBy oracle env config (env.metaListing config world) .start world answers) ∧
    loadMetadataDir env config .start world (oracle.lists :: answers) = .returned (result, loading) after []

section Following

variable {oracle : Oracle} {env : Env} {config : Config} {loading middle middle' : Loading} {world after : World}
  {memory memory' answers answers' : List Answer} {entries : List Bytes} {later : Loading} {last : World}

theorem Ends.unique {grows : Nat → Answer} {ready : Ready} (ends : Ends grows loading ready memory middle)
    (ends' : Ends grows loading ready memory' middle') : memory' = memory ∧ middle' = middle := by
  cases ends with
  | nothing =>
    cases ends'
    exact ⟨rfl, rfl⟩
  | aside =>
    cases ends'
    exact ⟨rfl, rfl⟩
  | kept record filter unpinOnError room =>
    cases ends' with
    | kept => exact ⟨rfl, rfl⟩
    | grown _ _ _ full _ => exact absurd full room
  | grown record filter unpinOnError full given =>
    cases ends' with
    | kept _ _ _ room => exact absurd full room
    | grown => exact ⟨rfl, rfl⟩

theorem Ends.not_fails {grows : Nat → Answer} {ready : Ready} {failure : Failure}
    (ends : Ends grows loading ready memory middle)
    (fails : Bloomd.finishEntry loading ready world memory' = .returned (.error failure, middle') after [])
    (first : ∀ answer ∈ memory'.head?, answer = grows loading.set.cap) : False := by
  cases ends with
  | nothing => cases (Stop.returned.inj fails).1
  | aside => cases (Stop.returned.inj fails).1
  | kept record filter unpinOnError room =>
    simp only [Bloomd.finishEntry, filterSetAdd, room, ↓reduceIte] at fails
    cases (Stop.returned.inj fails).1
  | grown record filter unpinOnError full given =>
    simp only [Bloomd.finishEntry, filterSetAdd, if_pos full, bind_assoc] at fails
    cases memory' with
    | nil => cases fails
    | cons answer more =>
      obtain rfl := first answer rfl
      simp only [bind_apply, sysRealloc, sysSilent, attempt, call, given, pure_apply] at fails
      cases (Stop.returned.inj fails).1

theorem LoadsBy.answeredBy (loads : LoadsBy oracle env config entries loading world answers later last) :
    AnsweredBy oracle env config entries loading world answers := by
  induction loads with
  | done loading world => exact .done loading world
  | next calls ends grows others ih => exact .next calls ends grows ih

/-- Where a load succeeds, no other answers are those of the oracle. -/
theorem LoadsBy.unique (loads : LoadsBy oracle env config entries loading world answers later last)
    (follows : AnsweredBy oracle env config entries loading world answers') : answers' = answers := by
  induction loads generalizing answers' with
  | done loading world =>
    cases follows
    rfl
  | next calls ends grows others ih =>
    obtain ⟨rfl, ended⟩ := ends_of_finishEntry ends grows
    cases follows with
    | fails calls' fails first =>
      obtain ⟨rfl, rfl, -⟩ := Stop.returned.inj (calls'.symm.trans calls)
      exact (ended.not_fails fails first).elim
    | next calls' ends' grows' others' =>
      obtain ⟨rfl, rfl, -⟩ := Stop.returned.inj (calls'.symm.trans calls)
      obtain ⟨rfl, ended'⟩ := ends_of_finishEntry ends' grows'
      obtain ⟨rfl, rfl⟩ := ended.unique ended'
      rw [ih others']

/-- A load that follows the oracle and succeeds -/
theorem AnsweredBy.loadsBy (follows : AnsweredBy oracle env config entries loading world answers)
    (unique : entries.Nodup) (grown : loading.set.Grown) (sound : Gathered.Sound ⟨loading.set.items, [], world⟩)
    (fresh : ∀ filter ∈ loading.set.items, metaLeaf filter.name ∉ entries)
    (run : loadEntries env config entries loading world answers = .returned (.ok (), later) last []) :
    LoadsBy oracle env config entries loading world answers later last := by
  induction follows with
  | done loading world =>
    obtain ⟨pair, rfl, -⟩ := Stop.returned.inj run
    obtain rfl := (Prod.mk.inj pair).2
    exact .done loading world
  | @fails entry _ loading _ _ _ _ _ _ _ calls ends grows =>
    have away : ∀ filter ∈ loading.set.items, metaLeaf filter.name ≠ entry :=
      fun filter member same => fresh filter member (same ▸ List.mem_cons_self)
    rw [loadEntries, bind_apply, loadEntry_turn calls sound away, ends] at run
    cases (Stop.returned.inj run).1
  | @next entry rest loading middle world between _ ready memory answers calls ends grows others ih =>
    obtain ⟨rfl, ended⟩ := ends_of_finishEntry ends grows
    obtain ⟨first, unique⟩ := List.nodup_cons.mp unique
    obtain ⟨aside', taken, adds⟩ := ended.take grown entry [] world _
    have gathers : Gathers env config oracle.calls entry _ _ := ⟨ready, _, calls, taken⟩
    have away : ∀ filter ∈ loading.set.items, metaLeaf filter.name ∉ rest :=
      fun filter member listed => fresh filter member (List.mem_cons_of_mem _ listed)
    rw [loadEntries_next calls sound (fun filter member same => fresh filter member (same ▸ List.mem_cons_self)) ended]
      at run
    have sound' := gathers.keeps sound
    exact .next calls ends grows (ih unique adds.grown ⟨sound'.pins, sound'.maps, sound'.named⟩
      (gathers.fresh sound first away) run)

end Following

/-- Two loads of one disk with the same outcome: the same filters with the same metadata
and map contents, the same counters, and the same disk up to the times in the names of the
metadata files that were set aside -/
structure SameLoad (config : Config) (begun : World) (loading loading' : Loading) (after after' : World) : Prop where
  filters : ∀ name, after.served loading.set.items name = after'.served loading'.set.items name
  single : ∀ name, (after.served loading.set.items name).length ≤ 1
  loaded : loading.stats.filtersLoaded = loading'.stats.filtersLoaded
  orphans : loading.stats.orphanMeta = loading'.stats.orphanMeta
  logs : ∀ loc, after.logs.lookup loc = after'.logs.lookup loc
  pins : ∀ loc, after.pinned loc = after'.pinned loc
  removed : ∀ name, Removed config begun after name ↔ Removed config begun after' name
  files : ∃ stamp stamp', Renamed config begun after stamp ∧ Renamed config begun after' stamp' ∧
    ∀ loc, (∀ name, Removed config begun after name →
        loc ≠ resolve (config.staleOf name (stamp name)) ∧ loc ≠ resolve (config.staleOf name (stamp' name))) →
      after.files.lookup loc = after'.files.lookup loc

section Comparison

variable {oracle oracle' : Oracle} {env env' : Env} {config : Config} {calls calls' : Bytes → List Answer}
  {entries entries' : List Bytes} {after after' : Gathered} {world : World}

/-- For each name at most one filter is served. -/
theorem served_single (runs : Runs (Gathers env config calls) entries (.start world) after) (sound : world.Sound)
    (unique : entries.Nodup) (name : Bytes) : (after.world.served after.items name).length ≤ 1 := by
  have separate := separate_gathers env config calls
  have fine := Gathered.sound_start sound
  by_cases valid : nameIsValid name = true
  · have found := metaEntryName_metaLeaf valid
    by_cases listed : metaLeaf name ∈ entries
    · obtain ⟨before, reached, good, fresh, gathers, shown⟩ := runs.own separate unique fine listed
      simp only [entryShown, found, Option.some.injEq] at fresh shown
      have none : (before.items.filter fun filter => filter.name == name).length = 0 := by
        rw [← @World.length_served before.world]
        exact congrArg List.length (congrArg Shown.served fresh)
      obtain ⟨ready, -, -, -, prepares, taken, -⟩ := gathers.named found good.pins
      have same : after.world.served after.items name = reached.world.served reached.items name :=
        congrArg Shown.served shown
      rw [same, World.length_served]
      rcases (prepares.taken taken taken).1 with ⟨items, -⟩ | ⟨filter, _, grown, -, own, -⟩
      · rw [items, none]
        exact Nat.zero_le 1
      · rw [grown, List.filter_append, List.length_append, none]
        simp [own]
    · have shown := runs.frame separate fine listed
      simp only [entryShown, found, Option.some.injEq] at shown
      have same : after.world.served after.items name = (Gathered.start world).world.served [] name :=
        congrArg Shown.served shown
      rw [same]
      exact Nat.zero_le 1
  · have good := runs.keeps separate fine
    rw [World.length_served, List.length_eq_zero_iff.mpr]
    · exact Nat.zero_le 1
    · apply List.filter_eq_nil_iff.mpr
      intro filter member same
      exact valid (eq_of_beq same ▸ good.named filter member)

theorem removed_agrees (shown : ∀ entry, entryShown entry after = entryShown entry after') {name : Bytes}
    (removed : Removed config world after.world name) : Removed config world after'.world name := by
  have same := shown (metaLeaf name)
  simp only [entryShown, metaEntryName_metaLeaf removed.valid, Option.some.injEq] at same
  refine ⟨removed.valid, removed.present, ?_⟩
  have leaf : (resolve (config.metaPathOf name)).leaf = metaLeaf name :=
    FileKind.leaf_path config .metadata removed.valid
  rw [World.fileAt, ← (Gathered.twin same).files _ leaf]
  exact removed.gone

theorem sameLoad_of_runs {loading loading' : Loading} {last last' : World} {aside aside' : List Bytes}
    (runs : Runs (Gathers env config calls) entries (.start world) ⟨loading.set.items, aside, last⟩)
    (runs' : Runs (Gathers env' config calls') entries' (.start world) ⟨loading'.set.items, aside', last'⟩)
    (sound : world.Sound) (reads : env'.reads = env.reads)
    (alike : ∀ entry, List.Forall₂ Answer.Alike (calls entry) (calls' entry)) (unique : entries.Nodup)
    (permuted : entries.Perm entries') {grows grows' : Nat → Answer} (adds : Adds grows .start loading [] aside)
    (adds' : Adds grows' .start loading' [] aside') : SameLoad config world loading loading' last last' := by
  have fine := Gathered.sound_start sound
  have good := runs.keeps (separate_gathers env config calls) fine
  have good' := runs'.keeps (separate_gathers env' config calls') fine
  have shown := shown_agrees runs runs' sound reads alike unique permuted
  have named : ∀ name, nameIsValid name = true → Gathered.shown ⟨loading.set.items, aside, last⟩ name =
      Gathered.shown ⟨loading'.set.items, aside', last'⟩ name := by
    intro name valid
    simpa only [entryShown, metaEntryName_metaLeaf valid, Option.some.injEq] using shown (metaLeaf name)
  have foreign := foreign_of_runs runs fine
  have foreign' := foreign_of_runs runs' fine
  obtain ⟨items, asides⟩ := lengths_agree runs runs' sound unique permuted shown
  have removed : ∀ name, Removed config world last name ↔ Removed config world last' name :=
    fun name => ⟨removed_agrees shown, removed_agrees fun entry => (shown entry).symm⟩
  refine ⟨?_, served_single runs sound unique, ?_, ?_, ?_, ?_, removed, ?_⟩
  · intro name
    by_cases valid : nameIsValid name = true
    · exact congrArg Shown.served (named name valid)
    · have unserved : ∀ (gathered : Gathered), gathered.Sound → gathered.world.served gathered.items name = [] := by
        intro gathered good
        apply List.map_eq_nil_iff.mpr
        apply List.filter_eq_nil_iff.mpr
        intro filter member same
        exact valid (eq_of_beq same ▸ good.named filter member)
      exact (unserved _ good).trans (unserved _ good').symm
  · have loaded : loading.stats.filtersLoaded + 0 = 0 + loading.set.items.length := adds.loaded
    have loaded' : loading'.stats.filtersLoaded + 0 = 0 + loading'.set.items.length := adds'.loaded
    simp only at items
    omega
  · have orphans : loading.stats.orphanMeta + 0 = 0 + aside.length := adds.orphans
    have orphans' : loading'.stats.orphanMeta + 0 = 0 + aside'.length := adds'.orphans
    simp only at asides
    omega
  · intro loc
    by_cases own : ∃ name, nameIsValid name = true ∧ loc.leaf = logLeaf name
    · obtain ⟨name, valid, leaf⟩ := own
      exact (Gathered.twin (named name valid)).logs loc leaf
    · have away : ∀ name, nameIsValid name = true → loc.leaf ≠ logLeaf name :=
        fun name valid leaf => own ⟨name, valid, leaf⟩
      exact (foreign.logs loc away).trans (foreign'.logs loc away).symm
  · intro loc
    cases valid : nameIsValid loc.leaf with
    | true => exact (Gathered.twin (named loc.leaf valid)).pins loc rfl
    | false => exact (foreign.pins loc valid).trans (foreign'.pins loc valid).symm
  · obtain ⟨stamp, renamed⟩ := renamed_of_runs runs fine
    obtain ⟨stamp', renamed'⟩ := renamed_of_runs runs' fine
    refine ⟨stamp, stamp', renamed, renamed', ?_⟩
    intro loc free
    by_cases own : ∃ name, Removed config world last name ∧ loc = resolve (config.metaPathOf name)
    · obtain ⟨name, gone, rfl⟩ := own
      exact gone.gone.trans ((removed name).mp gone).gone.symm
    · have kept : last.files.lookup loc = world.files.lookup loc := by
        apply renamed.others
        exact fun name gone => ⟨fun same => own ⟨name, gone, same⟩, (free name gone).1⟩
      have kept' : last'.files.lookup loc = world.files.lookup loc := by
        apply renamed'.others
        intro name gone
        have gone := (removed name).mpr gone
        exact ⟨fun same => own ⟨name, gone, same⟩, (free name gone).2⟩
      exact kept.trans kept'.symm

theorem Answer.Alike.symm {answer answer' : Answer} (alike : answer.Alike answer') : answer'.Alike answer := by
  cases alike with
  | same => exact .same answer
  | times now later digits => exact .times later now digits.symm

theorem Oracle.Alike.symm (alike : oracle.Alike oracle') : oracle'.Alike oracle := by
  refine ⟨alike.lists.symm, ?_, fun capacity => (alike.grows capacity).symm⟩
  intro entry
  exact (alike.calls entry).flip.imp fun _ _ same => same.symm

/-- Without a listing there is nothing to load. -/
theorem Loads.unlisted {result : Except Failure Unit} {loading : Loading} {last : World} {errno : Errno}
    (loads : Loads oracle env config world result loading last) (refused : oracle.lists.refusal = some errno) :
    loading = .start ∧ last = world ∧ (result = .ok () ↔ errno = .enoent) := by
  obtain ⟨answers, -, run⟩ := loads
  simp only [loadMetadataDir, bind_apply, sysListFiles, attempt, call, refused] at run
  split at run
  · rename_i missing
    obtain ⟨pair, rfl, -⟩ := Stop.returned.inj run
    obtain ⟨rfl, rfl⟩ := Prod.mk.inj pair
    exact ⟨rfl, rfl, iff_of_true rfl missing⟩
  · rename_i other
    obtain ⟨pair, rfl, -⟩ := Stop.returned.inj run
    obtain ⟨rfl, rfl⟩ := Prod.mk.inj pair
    exact ⟨rfl, rfl, iff_of_false (by intro same; cases same) other⟩

theorem loads_unlisted (oracle : Oracle) (env : Env) (config : Config) (world : World)
    (refused : oracle.lists.refusal = some .enoent) : Loads oracle env config world (.ok ()) .start world := by
  refine ⟨[], fun given => ?_, ?_⟩
  · rw [refused] at given
    cases given
  · simp only [loadMetadataDir, bind_apply, sysListFiles, attempt, call, refused]
    rfl

/-- Two whole listings of one directory -/
theorem perm_listed (whole : env.filesCut = none) (whole' : env'.filesCut = none) (config : Config) (world : World) :
    (env.metaListing config world).Perm (env'.metaListing config world) :=
  (env.perm_metaListing whole config world).trans (env'.perm_metaListing whole' config world).symm

theorem Loads.loadsBy {loading : Loading} {last : World} (loads : Loads oracle env config world (.ok ()) loading last)
    (sound : world.Sound) (given : oracle.lists.refusal = none) :
    ∃ answers, LoadsBy oracle env config (env.metaListing config world) .start world answers loading last := by
  obtain ⟨answers, answered, run⟩ := loads
  rw [loadMetadataDir_listed given] at run
  exact ⟨answers, (answered given).loadsBy (env.nodup_metaListing config world) rfl
    (Gathered.sound_start sound) nofun run⟩

theorem LoadsBy.loads {loading : Loading} {last : World} {answers : List Answer}
    (loads : LoadsBy oracle env config (env.metaListing config world) .start world answers loading last)
    (sound : world.Sound) (given : oracle.lists.refusal = none) :
    Loads oracle env config world (.ok ()) loading last := by
  refine ⟨answers, fun _ => loads.answeredBy, ?_⟩
  rw [loadMetadataDir_listed given]
  exact loads.run (env.nodup_metaListing config world) rfl (Gathered.sound_start sound) nofun

/-- What succeeds in one order succeeds in the other. -/
theorem Loads.transfer {loading : Loading} {last : World} (loads : Loads oracle env config world (.ok ()) loading last)
    (sound : world.Sound) (whole : env.filesCut = none) (whole' : env'.filesCut = none)
    (reads : env'.reads = env.reads) (alike : oracle.Alike oracle') :
    ∃ loading' last', Loads oracle' env' config world (.ok ()) loading' last' := by
  cases listed : oracle.lists.refusal with
  | some errno =>
    obtain rfl := (loads.unlisted listed).2.2.mp rfl
    exact ⟨_, _, loads_unlisted oracle' env' config world (alike.lists.symm.trans listed)⟩
  | none =>
    obtain ⟨answers, turns⟩ := loads.loadsBy sound listed
    have listed' := alike.lists.symm.trans listed
    have permuted := perm_listed whole whole' config world
    have unique := env.nodup_metaListing config world
    obtain ⟨aside, runs, adds⟩ := turns.gathers rfl []
    obtain ⟨last', runs'⟩ := runs.permuted (separate_gathers env config oracle.calls)
      (separate_gathers env' config oracle'.calls) (enables_gathers reads alike.calls)
        (Gathered.sound_start sound) unique
      permuted
    have shown := shown_agrees runs runs' sound reads alike.calls unique permuted
    have lengths := (lengths_agree runs runs' sound unique permuted shown).1
    have granted : Granted oracle'.grows 0 last'.items.length := by
      intro count low high full
      rw [← alike.grows count]
      exact adds.granted count low (lengths ▸ high) full
    obtain ⟨answers', loading', turns'⟩ := loadsBy_of_runs runs' .start rfl rfl granted
    exact ⟨loading', _, turns'.loads sound listed'⟩

/-- Two loads that both succeed -/
theorem Loads.same {loading loading' : Loading} {last last' : World}
    (loads : Loads oracle env config world (.ok ()) loading last)
    (loads' : Loads oracle' env' config world (.ok ()) loading' last') (sound : world.Sound)
    (whole : env.filesCut = none) (whole' : env'.filesCut = none) (reads : env'.reads = env.reads)
    (alike : oracle.Alike oracle') : SameLoad config world loading loading' last last' := by
  cases listed : oracle.lists.refusal with
  | some errno =>
    obtain ⟨rfl, rfl, -⟩ := loads.unlisted listed
    obtain ⟨rfl, rfl, -⟩ := loads'.unlisted (alike.lists.symm.trans listed)
    exact ⟨fun _ => rfl, fun _ => Nat.zero_le 1, rfl, rfl, fun _ => rfl, fun _ => rfl, fun _ => Iff.rfl, _, _,
      .refl config _, .refl config _, fun _ _ => rfl⟩
  | none =>
    obtain ⟨answers, turns⟩ := loads.loadsBy sound listed
    obtain ⟨answers', turns'⟩ := loads'.loadsBy sound (alike.lists.symm.trans listed)
    obtain ⟨aside, runs, adds⟩ := turns.gathers rfl []
    obtain ⟨aside', runs', adds'⟩ := turns'.gathers rfl []
    have permuted := perm_listed whole whole' config world
    exact sameLoad_of_runs runs runs' sound reads alike.calls (env.nodup_metaListing config world) permuted adds adds'

/-- Where one load succeeds with the answers of an oracle, all loads with its answers do. -/
theorem Loads.succeeds {loading loading' : Loading} {last last' : World} {result : Except Failure Unit}
    (loads : Loads oracle env config world (.ok ()) loading last)
    (other : Loads oracle env config world result loading' last') (sound : world.Sound) : result = .ok () := by
  cases listed : oracle.lists.refusal with
  | some errno =>
    apply (other.unlisted listed).2.2.mpr
    exact (loads.unlisted listed).2.2.mp rfl
  | none =>
    obtain ⟨answers, turns⟩ := loads.loadsBy sound listed
    obtain ⟨answers', answered, run⟩ := other
    obtain rfl := turns.unique (answered listed)
    have succeeded := turns.run (env.nodup_metaListing config world) rfl (Gathered.sound_start sound) nofun
    rw [loadMetadataDir_listed listed, succeeded] at run
    exact (Prod.mk.inj (Stop.returned.inj run).1).1.symm

/-- A load does not depend on the order in which the directory is listed. -/
theorem load_order_irrelevant (sound : world.Sound) (whole : env.filesCut = none) (whole' : env'.filesCut = none)
    (reads : env'.reads = env.reads) (alike : oracle.Alike oracle') :
    ((∃ loading last, Loads oracle env config world (.ok ()) loading last) ↔
      ∃ loading' last', Loads oracle' env' config world (.ok ()) loading' last') ∧
    ∀ result loading last result' loading' last', Loads oracle env config world result loading last →
      Loads oracle' env' config world result' loading' last' →
      (result = .ok () ↔ result' = .ok ()) ∧
      (result = .ok () → SameLoad config world loading loading' last last') := by
  have forward : ∀ {loading last}, Loads oracle env config world (.ok ()) loading last →
      ∃ loading' last', Loads oracle' env' config world (.ok ()) loading' last' :=
    fun loads => loads.transfer sound whole whole' reads alike
  have backward : ∀ {loading last}, Loads oracle' env' config world (.ok ()) loading last →
      ∃ loading' last', Loads oracle env config world (.ok ()) loading' last' :=
    fun loads => loads.transfer sound whole' whole reads.symm alike.symm
  constructor
  · constructor
    · rintro ⟨loading, last, loads⟩
      exact forward loads
    · rintro ⟨loading, last, loads⟩
      exact backward loads
  · intro result loading last result' loading' last' loads loads'
    have onward : result = .ok () → result' = .ok () := by
      rintro rfl
      obtain ⟨_, _, good⟩ := forward loads
      exact good.succeeds loads' sound
    have back : result' = .ok () → result = .ok () := by
      rintro rfl
      obtain ⟨_, _, good⟩ := backward loads'
      exact good.succeeds loads sound
    refine ⟨⟨onward, back⟩, ?_⟩
    intro fine
    have fine' := onward fine
    subst fine fine'
    exact loads.same loads' sound whole whole' reads alike

end Comparison

/-- A filter that can be rebuilt, and a metadata file that cannot be read -/
def mixedWorld : World :=
  ((World.empty.setFile (bytes "/m/x.meta") (some (unpinnedRecord true))).setFile (bytes "/m/y.meta") none).setLog
    (bytes "/m/x.digests") ⟨List.replicate 16 7, []⟩

/-- All calls succeed at some time. -/
def Oracle.plain (now : Nat) : Oracle where
  lists := .ok
  calls entry :=
    if entry = bytes "x.meta" then List.replicate 11 .ok
    else if entry = bytes "y.meta" then [.ok, .time now, .ok]
    else []
  grows _ := .ok

def Env.backward : Env := ⟨List.reverse, List.reverse_perm, none, none, fun _ => .ok⟩

theorem loads_mixedWorld : ∃ loading last, Loads (.plain 5) .plain demoRoots mixedWorld (.ok ()) loading last := by
  have listed : Env.plain.metaListing demoRoots mixedWorld =
      [bytes "y.meta", bytes "x.meta"] := by decide
  have runs : ∃ last, Runs (Gathers .plain demoRoots (Oracle.plain 5).calls) [bytes "y.meta", bytes "x.meta"]
      (.start mixedWorld) last :=
    ⟨_, .next ⟨_, _, rfl, rfl⟩ (.next ⟨_, _, rfl, rfl⟩ (.done _))⟩
  obtain ⟨last, runs⟩ := runs
  have granted : Granted (Oracle.plain 5).grows 0 last.items.length := fun _ _ _ _ => rfl
  obtain ⟨answers, loading, turns⟩ := loadsBy_of_runs runs .start rfl rfl granted
  rw [← listed] at turns
  exact ⟨loading, _, turns.loads nofun rfl⟩

theorem load_order_irrelevant_backward :
    (∃ loading last, Loads (.plain 5) .plain demoRoots mixedWorld (.ok ()) loading last) ∧
    (∃ loading last, Loads (.plain 7) .backward demoRoots mixedWorld (.ok ()) loading last) ∧
    ∀ loading last loading' last', Loads (.plain 5) .plain demoRoots mixedWorld (.ok ()) loading last →
      Loads (.plain 7) .backward demoRoots mixedWorld (.ok ()) loading' last' →
      SameLoad demoRoots mixedWorld loading loading' last last' := by
  have alike : (Oracle.plain 5).Alike (Oracle.plain 7) := by
    refine ⟨rfl, ?_, fun _ => rfl⟩
    intro entry
    simp only [Oracle.plain]
    split
    · exact forall₂_refl _
    · split
      · exact .cons (.same _) (.cons (.times 5 7 rfl) (.cons (.same _) .nil))
      · exact .nil
  obtain ⟨both, agrees⟩ := @load_order_irrelevant (.plain 5)
    (.plain 7) .plain .backward demoRoots mixedWorld nofun rfl rfl rfl alike
  refine ⟨loads_mixedWorld, both.mp loads_mixedWorld, ?_⟩
  intro loading last loading' last' loads loads'
  exact (agrees _ _ _ _ _ _ loads loads').2 rfl

end Bloomd
