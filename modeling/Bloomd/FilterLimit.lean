import Bloomd.LoadTurn
import Bloomd.IsolationInvariant
import Bloomd.RequestCompletion
import Bloomd.ControlSemantics

/-! The number of filters of a session. `BLOOMD_MAX_FILTERS` is enforced nowhere, so
the limit holds as long as no startup and no CREATE goes beyond it, and fails after
that. -/

namespace Bloomd

open CrashLogic Prog

section Load

variable {env : Env} {roots : Config} {mode : LogSyncMode} {name : Bytes} {world later : World}

/-- The loader finds a map or a log for a record, or needs neither. -/
def Available (roots : Config) (name : Bytes) (record : MetaRecord) (world : World) : Prop :=
  record.hasData = true → world.pinAt record.pinPath = none → world.logAt (roots.logPathOf name) ≠ none

/-- The loader may make a filter of the metadata of this name. -/
def Loadable (env : Env) (roots : Config) (world : World) (name : Bytes) : Prop :=
  env.reads (roots.metaPathOf name) = .ok ∧
    ∃ record, Accepted roots name record world ∧ Available roots name record world

theorem Loadable.apart (loadable : Loadable env roots later name) (apart : Apart name world later)
    (valid : nameIsValid name = true) : Loadable env roots world name := by
  obtain ⟨readable, record, accepted, available⟩ := loadable
  refine ⟨readable, record, accepted.of_file (apart.fileAt valid roots).symm, ?_⟩
  unfold Available at available ⊢
  rw [apart.pinAt accepted.leaf, apart.logAt valid roots] at available
  exact available

theorem wp_openOrRebuild_unavailable {metadata : FilterMeta} (named : metadata.name = name)
    (unavailable : ¬ Available roots name metadata.toMetaRecord world) :
    wp (openOrRebuild (roots.withMode mode) metadata)
      (fun opened after => (∀ record map unpin, opened ≠ .map record map unpin) ∧ after.pins = world.pins)
      (fun _ => True) world := by
  unfold Available at unavailable
  push Not at unavailable
  obtain ⟨data, unpinned, missing⟩ := unavailable
  refine wp_bind (wp_attempt trivial (fun errno transient => ?_) ?_)
  · simp only [transient.ne_enoent, ↓reduceIte]
    exact (wp_pure _).mpr ⟨nofun, rfl⟩
  · rw [unpinned]
    simp only [↓reduceIte, data, Bool.not_true, Bool.false_eq_true]
    split
    · exact (wp_pure _).mpr ⟨nofun, rfl⟩
    · apply wp_bind
      have gone : world.logAt ((roots.withMode mode).logPathOf metadata.name) = none := by
        rw [named]
        exact missing
      apply (wp_rebuildFromLog_missing gone).mono _ fun _ _ => trivial
      rintro result after ⟨unlogged, failure, rfl, -⟩
      have pins : after.pins = world.pins := by rcases unlogged with rfl | rfl <;> rfl
      simp only
      split
      · exact (wp_pure _).mpr ⟨nofun, pins⟩
      · exact (wp_pure _).mpr ⟨nofun, pins⟩

theorem wp_quarantine_set (path : Bytes) (loading : Loading) :
    wp (quarantine path loading) (fun later after => later.set = loading.set ∧ after.pins = world.pins)
      (fun _ => True) world := by
  have recovers : wp (metaRecoverStale path) (fun _ after => after.pins = world.pins) (fun _ => True) world := by
    refine wp_bind ((wp_call _).mpr ⟨trivial, fun answer => ?_⟩)
    simp only
    split
    · exact (wp_pure _).mpr rfl
    · apply wp_attempt trivial
      · exact fun _ _ => rfl
      · cases world.fileAt path with
        | none => rfl
        | some file => rfl
  apply wp_bind
  apply recovers.mono _ fun _ held => held
  intro _ after pins
  exact (wp_pure _).mpr ⟨rfl, pins⟩

/-- The turn of metadata that are not loadable adds no filter and changes no pin. -/
theorem wp_loadRecord_unloadable (valid : nameIsValid name = true) (fits : (roots.metaPathOf name).length < pathMax)
    (unloadable : ¬ Loadable env roots world name) (loading : Loading) :
    wp (loadRecord env (roots.withMode mode) (roots.metaPathOf name) name loading)
      (fun result after => result.2.set.items = loading.set.items ∧ after.pins = world.pins)
      (fun _ => True) world := by
  have aside : ∀ middle : World, middle.pins = world.pins → wp (do
      let loading ← quarantine (roots.metaPathOf name) loading
      pure (.ok (), loading) : Sys (Except Failure Unit × Loading))
      (fun result after => result.2.set.items = loading.set.items ∧ after.pins = world.pins)
        (fun _ => True) middle := by
    intro middle kept
    apply wp_bind
    apply (wp_quarantine_set _ loading).mono _ fun _ held => held
    rintro later _ ⟨same, pins⟩
    exact (wp_pure _).mpr ⟨congrArg FilterSet.items same, pins.trans kept⟩
  apply wp_bind
  apply (wp_call _).mpr
  refine ⟨trivial, fun _ => ?_⟩
  cases readable : env.reads (roots.metaPathOf name) with
  | openFails fault => exact aside world rfl
  | readFails =>
    cases world.fileAt (roots.metaPathOf name) with
    | none => exact aside world rfl
    | some file => exact aside world rfl
  | ok =>
    cases present : world.fileAt (roots.metaPathOf name) with
    | none => exact aside world rfl
    | some file =>
      cases file with
      | none => exact aside world rfl
      | some stored =>
        simp only
        cases decoded : stored.readBack with
        | none => exact aside world rfl
        | some record =>
          simp only
          split
          · exact aside world rfl
          · rename_i passes
            simp only [not_or, ne_eq, Decidable.not_not, Bool.not_eq_true', Bool.not_eq_false] at passes
            obtain ⟨named, under, pinned⟩ := passes
            have accepted : Accepted roots name record world :=
              ⟨valid, fits, ⟨stored, present, decoded⟩, named, under, named ▸ pinned⟩
            have unavailable : ¬ Available roots name record world :=
              fun available => unloadable ⟨readable, record, accepted, available⟩
            split
            · exact (wp_pure _).mpr ⟨rfl, rfl⟩
            · apply wp_bind
              apply (@wp_openOrRebuild_unavailable roots mode name world _ named unavailable).mono _ fun _ held => held
              rintro opened after ⟨unmade, pins⟩
              cases opened with
              | failed failure => exact (wp_pure _).mpr ⟨rfl, pins⟩
              | stale => exact aside after pins
              | map loaded map unpin => exact absurd rfl (unmade loaded map unpin)

/-- One entry's turn: a new filter stands for loadable metadata. -/
theorem wp_loadEntry_loadable (entry : Bytes) (loading : Loading) :
    wp (loadEntry env (roots.withMode mode) entry loading)
      (fun result _ => ∀ filter ∈ result.2.set.items, filter ∈ loading.set.items ∨
        (metaLeaf filter.name = entry ∧ nameIsValid filter.name = true ∧ Loadable env roots world filter.name))
      (fun _ => True) world := by
  unfold loadEntry
  split
  · exact (wp_pure _).mpr fun _ => Or.inl
  · simp only
    split
    · exact (wp_pure _).mpr fun _ => Or.inl
    · rename_i long
      split
      · exact (wp_pure _).mpr fun _ => Or.inl
      · rename_i name named
        obtain ⟨rfl, valid⟩ := metaEntryName_ok named
        rw [show joined (roots.withMode mode).metaRoot (metaLeaf name) [] = roots.metaPathOf name from
          joined_metaLeaf roots name] at long ⊢
        by_cases loadable : Loadable env roots world name
        · apply (wp_loadRecord_items env valid loading).mono _ fun _ held => held
          intro result _ items filter member
          rcases items with same | ⟨added, grown, rfl⟩
          · exact Or.inl (same ▸ member)
          · rw [grown] at member
            rcases List.mem_append.mp member with old | new
            · exact Or.inl old
            · rw [List.mem_singleton.mp new]
              exact Or.inr ⟨rfl, valid, loadable⟩
        · apply (wp_loadRecord_unloadable valid (Nat.not_le.mp long) loadable loading).mono _ fun _ held => held
          intro result _ held filter member
          exact Or.inl (held.1 ▸ member)

/-- The whole load: every filter stands for metadata that were loadable when it began. -/
theorem wp_loadEntries_loadable (begun : World) (entries : List Bytes) (unique : entries.Nodup) :
    ∀ (loading : Loading) (world : World), (∀ filter ∈ loading.set.items, Loadable env roots begun filter.name) →
      (∀ name, metaLeaf name ∈ entries → Apart name begun world) →
      wp (loadEntries env (roots.withMode mode) entries loading)
        (fun result _ => ∀ filter ∈ result.2.set.items, Loadable env roots begun filter.name)
          (fun _ => True) world := by
  induction entries with
  | nil => exact fun loading world loadable _ => (wp_pure _).mpr loadable
  | cons entry rest ih =>
    intro loading world loadable apart
    obtain ⟨fresh, unique⟩ := List.nodup_cons.mp unique
    have frame : wp (loadEntry env (roots.withMode mode) entry loading)
        (fun _ after => ∀ name, metaLeaf name ∈ rest → Apart name begun after) (fun _ => True) world := by
      constructor
      intro answers
      cases run : loadEntry env (roots.withMode mode) entry loading world answers with
      | crashed after => trivial
      | returned result after left =>
        intro name listed
        have different : entry ≠ metaLeaf name := fun same => fresh (same ▸ listed)
        have kept := (@keepsApart_loadEntry roots mode name env entry different loading world).returned run
        exact IsTrans.trans _ _ _ (apart name (List.mem_cons_of_mem _ listed)) kept.2
    apply wp_bind
    apply ((wp_loadEntry_loadable entry loading).and frame).mono _ fun _ _ => trivial
    rintro ⟨loaded, later⟩ after ⟨items, apartLater⟩
    have loadableLater : ∀ filter ∈ later.set.items, Loadable env roots begun filter.name := by
      intro filter member
      rcases items filter member with old | ⟨own, valid, new⟩
      · exact loadable filter old
      · exact new.apart (apart filter.name (own ▸ List.mem_cons_self)) valid
    cases loaded with
    | error failure => exact (wp_pure _).mpr loadableLater
    | ok done => exact ih unique later after loadableLater apartLater

/-- A startup serves only filters whose metadata were loadable. -/
theorem wp_startup_loadable : wp (startup env roots)
    (fun result _ => ∀ daemon, result = .ok daemon →
      ∀ filter ∈ daemon.set.items, Loadable env roots world filter.name) (fun _ => True) world := by
  have frees : ∀ (set : FilterSet) (failure : Failure) (middle : World),
      wp (do filterSetFree set; pure (.error failure) : Sys (Except Failure Daemon))
        (fun result _ => ∀ daemon, result = .ok daemon →
          ∀ filter ∈ daemon.set.items, Loadable env roots world filter.name) (fun _ => True) middle := by
    intro set failure middle
    apply wp_bind
    exact (wp_trivial _).mono (fun _ _ _ => (wp_pure _).mpr nofun) fun _ held => held
  have loads : wp (loadMetadataDir env roots ⟨.init, .zero⟩)
      (fun result _ => ∀ filter ∈ result.2.set.items, Loadable env roots world filter.name) (fun _ => True) world := by
    apply wp_loadMetadataDir_listed trivial
    · exact fun _ => nofun
    · exact @wp_loadEntries_loadable env roots roots.logSyncMode world _ (env.nodup_metaListing roots world) _ _ nofun
        fun name _ => refl _
  apply wp_bind
  apply loads.mono _ fun _ held => held
  rintro ⟨loaded, loading⟩ middle loadable
  cases loaded with
  | error failure => exact frees _ _ middle
  | ok done =>
    apply wp_bind
    apply wp_cleanupOrphanPins_items.mono _ fun _ held => held
    rintro ⟨cleaned, later⟩ last same
    cases cleaned with
    | error errno => exact frees _ _ last
    | ok done =>
      apply (wp_pure _).mpr
      rintro daemon ⟨⟩ filter member
      exact loadable filter (same ▸ member)

end Load

/-- No more than the limit of names have metadata that a startup may load. -/
def FewLoadable (env : Env) (roots : Config) (world : World) : Prop :=
  ∀ names : List Bytes, names.Nodup → (∀ name ∈ names, Loadable env roots world name) → names.length ≤ maxFilters

theorem length_le_of_fewLoadable {env : Env} {roots : Config} {world loaded : World} {daemon : Daemon}
    {answers rest : List Answer} (started : startup env roots world answers = .returned (.ok daemon) loaded rest)
    (few : FewLoadable env roots world) : daemon.set.items.length ≤ maxFilters := by
  obtain ⟨⟨added, serving⟩, _⟩ := startup_inPlace started
  have loadable := wp_startup_loadable.returned started daemon rfl
  have counted : (daemon.set.items.map Filter.name).length = daemon.set.items.length := List.length_map _
  rw [← counted]
  apply few _ serving.tended.unique
  intro name member
  obtain ⟨filter, known, rfl⟩ := List.mem_map.mp member
  exact loadable filter known

section Session

variable {roots : Config} {daemon : Daemon} {world : World}

/-- CREATE finds nothing wrong with its fields, and the name is free. -/
structure Creatable [Libm] (daemon : Daemon) (fields : CreateRequest) : Prop where
  valid : nameIsValid fields.name = true
  capacity : fields.capacity ≠ 0 ∧ fields.capacity < 2 ^ 32
  hashes : fields.hashes ≤ 15
  rate : rateInRange fields.errorRate = true
  free : (daemon.set.findN fields.name).1 = none
  paths : ∃ metadata, assignFilterPaths daemon.config (newFilterMeta fields) = .ok metadata

/-- A CREATE that finds something wrong adds no filter. -/
theorem wp_handleCreate_refused [Libm] {fields : CreateRequest} (refused : ¬ Creatable daemon fields) :
    wp (handleCreate daemon fields) (fun result _ => result.2.set.items = daemon.set.items) (fun _ => True) world := by
  unfold handleCreate
  split
  · exact (wp_pure _).mpr rfl
  rename_i named
  split
  · exact (wp_pure _).mpr rfl
  rename_i ranged
  simp only
  split
  · exact (wp_pure _).mpr FilterSet.findN_items
  rename_i free
  split
  · exact (wp_pure _).mpr FilterSet.findN_items
  rename_i metadata assigned
  simp only [not_or, Nat.not_le, Bool.not_eq_true', Bool.not_eq_false, Nat.not_lt] at ranged
  obtain ⟨positive, small, few, rate⟩ := ranged
  refine absurd ⟨by simpa using named, ⟨positive, small⟩, few, rate, ?_, metadata, assigned⟩ refused
  simpa using free

/-- The number of filters after a request -/
theorem Handling.length_le {request : Request} {reply : Reply} {later : Daemon} {after : World}
    (handling : Handling roots daemon request world reply later after) :
    later.set.items.length ≤ daemon.set.items.length ∨
      (∃ fields, request = .create fields) ∧ later.set.items.length = daemon.set.items.length + 1 := by
  cases handling with
  | kept items => exact Or.inl (by rw [items])
  | worked found named absorbed items => exact Or.inl (by rw [items, List.length_set])
  | created making named missing unfilled source items =>
    exact Or.inr ⟨making, by rw [items, List.length_append, List.length_singleton]⟩
  | dropped found named items => exact Or.inl (by rw [items]; exact List.length_eraseIdx_le _ _)

/-- The filters are in their places, and there are not too many of them. -/
structure Session.Limited (roots : Config) (session : Session) : Prop where
  place : InPlace roots session.daemon session.world
  few : session.daemon.set.items.length ≤ maxFilters

/-- A CREATE that would succeed comes only while there is room under the limit. -/
def Session.Spares [Libm] (session : Session) : Event → Prop
  | .request view _ _ => ∀ fields, view.request = some (.create fields) → Creatable session.daemon fields →
      session.daemon.set.items.length < maxFilters
  | .sync _ _ _ => True

/-- All frames of a run spare the limit in the states they find. -/
def Session.SparesAll [Libm] : Session → List Event → Prop
  | _, [] => True
  | session, event :: events => session.Spares event ∧ ∀ next, session.step event = some next → next.SparesAll events

theorem wp_dispatch_refused [Libm] {view : RequestView} {fields : CreateRequest} (start : Response)
    (parsed : view.request = some (.create fields)) (refused : ¬ Creatable daemon fields) :
    wp (dispatch daemon view start) (fun settled _ => settled.2.2.set.items = daemon.set.items) (fun _ => True)
      world := by
  apply wp_bind
  rw [serve_eq daemon start parsed]
  apply wp_bind
  apply (wp_handleCreate_refused refused).mono _ fun _ held => held
  intro result after same
  apply (wp_pure _).mpr
  apply (wp_pure _).mpr
  rw [settle_daemon]
  exact same

/-- What one frame makes of the number of filters -/
theorem Session.Limited.serve [Libm] {session later : Session} (limited : session.Limited roots) {view : RequestView}
    {previous : Response} {answers : List Answer} (spares : session.Spares (.request view previous answers))
    (served : session.serve view previous answers = some later) : later.Limited roots := by
  have spec : wp (dispatch session.daemon view (previous.reset view.header.opcode view.header.requestId))
      (fun settled after => InPlace roots settled.2.2 after ∧ settled.2.2.set.items.length ≤ maxFilters)
      (fun _ => True) session.world := by
    have handles := wp_dispatch_handled limited.place view
      (rfl : (previous.reset view.header.opcode view.header.requestId).header.status = Status.ok.code)
    cases parsed : view.request with
    | none =>
      apply handles.mono _ fun _ held => held
      rintro settled after ⟨place, aside, _⟩
      obtain ⟨_, lastIndex, same⟩ := aside parsed
      refine ⟨place, ?_⟩
      rw [same]
      exact limited.few
    | some request =>
      by_cases room : session.daemon.set.items.length < maxFilters
      · apply handles.mono _ fun _ held => held
        rintro settled after ⟨place, _, handled⟩
        obtain ⟨reply, ⟨_, handling⟩, _⟩ := handled request parsed
        refine ⟨place, ?_⟩
        rcases handling.length_le with fewer | ⟨_, more⟩
        · exact fewer.trans limited.few
        · simp only at more
          omega
      · by_cases making : ∃ fields, request = .create fields
        · obtain ⟨fields, rfl⟩ := making
          have refused : ¬ Creatable session.daemon fields := fun creatable => room (spares fields parsed creatable)
          apply (handles.and (wp_dispatch_refused _ parsed refused)).mono _ fun _ _ => trivial
          rintro settled after ⟨⟨place, _⟩, same⟩
          refine ⟨place, ?_⟩
          rw [same]
          exact limited.few
        · apply handles.mono _ fun _ held => held
          rintro settled after ⟨place, _, handled⟩
          obtain ⟨reply, ⟨_, handling⟩, _⟩ := handled request parsed
          refine ⟨place, ?_⟩
          rcases handling.length_le with fewer | ⟨made, _⟩
          · exact fewer.trans limited.few
          · exact absurd made making
  unfold Session.serve at served
  split at served
  · cases served
  · rename_i returned
    cases served
    obtain ⟨place, few⟩ := spec.returned returned
    exact ⟨place, few⟩

theorem Session.Limited.sync {session later : Session} (limited : session.Limited roots) {now : Nat} {force : Bool}
    {answers : List Answer} (synced : session.sync now force answers = some later) : later.Limited roots := by
  obtain ⟨added, serving⟩ := limited.place
  have spec : wp (syncDirtyLogs session.daemon.set now force)
      (fun set after => InPlace roots { session.daemon with set } after ∧ set.items.length ≤ maxFilters)
      (fun _ => True) session.world := by
    have follow : Keeps (Feeds nothing) (syncDirtyLogs session.daemon.set now force) fun set =>
        List.Forall₂ (Follows roots) session.daemon.set.items set.items :=
      .bind (keeps_syncFilters now force fun filter member => (serving.tended.settled filter member).seated)
        fun _ held => .pure held
    apply ((wp_syncDirtyLogs serving (fun _ _ _ => trivial) now force).and (follow session.world)).mono _
      fun _ _ => trivial
    rintro set after ⟨still, held, _⟩
    refine ⟨⟨added, still⟩, ?_⟩
    rw [← held.length_eq]
    exact limited.few
  unfold Session.sync at synced
  split at synced
  · cases synced
  · rename_i returned
    cases synced
    obtain ⟨place, few⟩ := spec.returned returned
    exact ⟨place, few⟩

theorem Session.Limited.run [Libm] {later : Session} (events : List Event) : ∀ {session : Session},
    session.Limited roots → session.SparesAll events → session.run events = some later → later.Limited roots := by
  induction events with
  | nil =>
    intro session limited _ ran
    cases ran
    exact limited
  | cons event events ih =>
    intro session limited spares ran
    obtain ⟨next, stepped, onward⟩ := Option.bind_eq_some_iff.mp ran
    obtain ⟨own, others⟩ := spares
    cases event with
    | request view previous answers => exact ih (limited.serve own stepped) (others next stepped) onward
    | sync now force answers => exact ih (limited.sync stepped) (others next stepped) onward

end Session

section List

/-- The names of a set take at most 65 bytes each. -/
theorem appendNames_fits (filters : List Filter) (short : ∀ filter ∈ filters, filter.name.length ≤ maxNameLen) :
    ∀ buf : Bytes, buf.length + 65 * filters.length ≤ maxFrameBody → (appendNames filters buf).1 = .ok () := by
  induction filters with
  | nil => exact fun _ _ => rfl
  | cons filter rest ih =>
    intro buf room
    have own : filter.name.length ≤ 63 := short filter List.mem_cons_self
    have counted : (filter :: rest).length = rest.length + 1 := List.length_cons
    have width : (storeU16 filter.name.length).length = 2 := by simp
    unfold appendNames bufferAppendU16
    rw [bufferAppend_fits (by omega)]
    simp only
    rw [bufferAppend_fits (by rw [List.length_append]; omega)]
    simp only
    apply ih (fun other member => short other (List.mem_cons_of_mem _ member))
    rw [List.length_append, List.length_append]
    omega

/-- LIST is answered with OK while the set keeps the limit. -/
theorem dispatch_list [Libm] {daemon : Daemon} (valid : ∀ filter ∈ daemon.set.items, nameIsValid filter.name = true)
    (few : daemon.set.items.length ≤ maxFilters) {view : RequestView} (opcode : view.header.opcode = 8)
    (empty : view.body = []) (previous : Response) (world : World) (answers : List Answer) :
    ∃ response, dispatch daemon view (previous.reset view.header.opcode view.header.requestId) world answers =
      .returned (.ok (), response, daemon) world answers ∧ response.header.status = Status.ok.code := by
  have serves : serve daemon view (previous.reset view.header.opcode view.header.requestId) =
      pure (withoutBody "LIST" daemon view.body (previous.reset view.header.opcode view.header.requestId)
        (handleList daemon.set)) := by
    simp only [serve, opcode]
    rfl
  have fine : (handleList daemon.set (previous.reset view.header.opcode view.header.requestId)).1 = .ok () := by
    have counted : bufferAppendU32 [] daemon.set.items.length = (.ok (), storeU32 daemon.set.items.length) :=
      bufferAppend_fits (by simp [maxFrameBody])
    simp only [handleList, Response.reset, counted]
    apply appendNames_fits _ fun filter member => length_of_valid (valid filter member)
    simp only [length_storeU32, maxFrameBody, maxFilters] at few ⊢
    omega
  refine ⟨(handleList daemon.set (previous.reset view.header.opcode view.header.requestId)).2, ?_, ?_⟩
  · unfold dispatch
    rw [serves, pure_bind]
    simp only [withoutBody, empty, List.length_nil, ne_eq, not_true_eq_false, ↓reduceIte, pure_apply]
    rw [fine]
    rfl
  · unfold handleList
    split
    · rfl
    · rfl

end List

/-- In every state of every session, whatever the startup found and whatever frames
came: if the startup found no more loadable metadata than the limit, and no CREATE that
would succeed came to a full set, then the limit holds and LIST is answered with OK. -/
theorem filterLimit_holds [Libm] {env : Env} {config : Config} {daemon : Daemon} {world loaded : World}
    {answers rest : List Answer} (started : startup env config world answers = .returned (.ok daemon) loaded rest)
    (few : FewLoadable env config world) (events : List Event)
    (spares : Session.SparesAll ⟨daemon, loaded, fun _ => none⟩ events) {session : Session}
    (ran : Session.run ⟨daemon, loaded, fun _ => none⟩ events = some session) :
    session.daemon.set.items.length ≤ maxFilters ∧
    ∀ (view : RequestView) (previous : Response) (answers : List Answer), view.header.opcode = 8 → view.body = [] →
      ∃ response, dispatch session.daemon view (previous.reset view.header.opcode view.header.requestId)
        session.world answers = .returned (.ok (), response, session.daemon) session.world answers ∧
        response.header.status = Status.ok.code := by
  have start : Session.Limited config ⟨daemon, loaded, fun _ => none⟩ :=
    ⟨(startup_inPlace started).1, length_le_of_fewLoadable started few⟩
  have limited := start.run events spares ran
  refine ⟨limited.few, fun view previous answers opcode empty => ?_⟩
  obtain ⟨added, serving⟩ := limited.place
  exact dispatch_list serving.named limited.few opcode empty previous _ _

section Demo

/-- The first letters of the alphabet -/
def letter (k : Nat) : UInt8 := 97 + k.toUInt8

theorem nameChar_letter : ∀ k < 16, nameChar (letter k) = true := by decide

theorem letter_injective : ∀ first < 16, ∀ second < 16, letter first = letter second → first = second := by decide

/-- A name for each number below 4096 -/
def threeLetters (n : Nat) : Bytes := [letter (n / 256), letter (n / 16 % 16), letter (n % 16)]

def manyFields (n : Nat) : CreateRequest := ⟨threeLetters n, 100, 0x3f847ae147ae147b, 3⟩

theorem nameIsValid_threeLetters {n : Nat} (small : n < 4096) : nameIsValid (threeLetters n) = true := by
  have first := nameChar_letter (n / 256) (by omega)
  have second := nameChar_letter (n / 16 % 16) (by omega)
  have third := nameChar_letter (n % 16) (by omega)
  simp [nameIsValid, threeLetters, first, second, third, maxNameLen]

theorem threeLetters_injective {first second : Nat} (small : first < 4096) (other : second < 4096)
    (same : threeLetters first = threeLetters second) : first = second := by
  simp only [threeLetters, List.cons.injEq, and_true] at same
  obtain ⟨high, middle, low⟩ := same
  have high := letter_injective _ (by omega) _ (by omega) high
  have middle := letter_injective _ (by omega) _ (by omega) middle
  have low := letter_injective _ (by omega) _ (by omega) low
  omega

theorem length_createBody (fields : CreateRequest) : (createBody fields).length = 24 + fields.name.length := by
  simp [createBody]
  omega

def manyFrame (n : Nat) : RequestView :=
  frameOf 2 (createBody (manyFields n)) (by
    have width : (manyFields n).name.length = 3 := rfl
    rw [length_createBody, width]
    decide)

theorem request_manyFrame {n : Nat} (small : n < 4096) : (manyFrame n).request = some (.create (manyFields n)) := by
  have parsed : parseCreate (createBody (manyFields n)) = .ok (manyFields n) :=
    parseCreate_createBody (nameIsValid_threeLetters small) (by simp [manyFields]) (by simp [manyFields])
  simp [RequestView.request, manyFrame, frameOf, parseRequest, parsed, Except.toOption]

/-- The metadata of such a filter -/
def manyMeta (n : Nat) : FilterMeta :=
  { @newFilterMeta exactLibm (manyFields n) with
    metaPath := demoRoots.metaPathOf (threeLetters n)
    logPath := demoRoots.logPathOf (threeLetters n)
    pinPath := demoRoots.pinPathOf (threeLetters n) }

theorem assignFilterPaths_many (n : Nat) :
    assignFilterPaths demoRoots (@newFilterMeta exactLibm (manyFields n)) = .ok (manyMeta n) := rfl

theorem writable_many (n : Nat) : Writable (manyMeta n) 1 := by
  have body : (metaBody (manyMeta n).toMetaRecord).length = (metaBody (manyMeta 0).toMetaRecord).length := by
    simp only [metaBody, metaLine, List.length_append, List.length_cons]
    rfl
  have temp : (tempPath (manyMeta n).metaPath 1).length = (tempPath (manyMeta 0).metaPath 1).length := rfl
  obtain ⟨short, fits⟩ : Writable (manyMeta 0) 1 := by decide +kernel
  constructor
  · rw [body]
    exact short
  · rw [temp]
    exact fits

/-- The session after so many CREATEs -/
structure Growing (n : Nat) (session : Session) : Prop where
  place : InPlace demoRoots session.daemon session.world
  config : session.daemon.config = demoRoots
  unpooled : session.daemon.pool = none
  pid : session.world.pid = 1
  names : session.daemon.set.items.map Filter.name = (List.range n).map threeLetters

theorem Growing.step {n : Nat} {session : Session} (growing : Growing n session) (small : n < 4096) :
    ∃ event next, @Session.step exactLibm session event = some next ∧ Growing (n + 1) next := by
  have valid := nameIsValid_threeLetters small
  obtain ⟨added, serving⟩ := growing.place
  have free : (session.daemon.set.findN (threeLetters n)).1 = none := by
    cases located : (session.daemon.set.findN (threeLetters n)).1 with
    | none => rfl
    | some index =>
      obtain ⟨filter, found, named⟩ := FilterSet.findN_name serving.named valid located
      have held : threeLetters n ∈ session.daemon.set.items.map Filter.name :=
        List.mem_map.mpr ⟨filter, List.mem_of_getElem? found, named⟩
      rw [growing.names] at held
      obtain ⟨other, below, same⟩ := List.mem_map.mp held
      have smaller := List.mem_range.mp below
      have equal := threeLetters_injective (by omega) small same
      omega
  have capacity : 100 ≠ 0 ∧ 100 < 2 ^ 32 := by decide
  have hashes : 3 ≤ 15 := by decide
  have rate : rateInRange 0x3f847ae147ae147b = true := by decide
  have creates := @completes_handleCreate session.world session.daemon exactLibm (manyFields n) (manyMeta n) valid
    capacity hashes rate free (growing.config ▸ assignFilterPaths_many n) growing.unpooled
    (growing.pid ▸ writable_many n)
  have start : ((Response.init 0 0).reset (manyFrame n).header.opcode (manyFrame n).header.requestId).header.status =
      Status.ok.code := rfl
  generalize opened : (Response.init 0 0).reset (manyFrame n).header.opcode (manyFrame n).header.requestId =
    response at start
  have dispatches : Completes (@dispatch exactLibm session.daemon (manyFrame n) response)
      (fun settled _ => (∃ map, settled.2.2.set.items = session.daemon.set.items ++ [.fresh (manyMeta n) map]) ∧
        settled.2.2.pool = none ∧ settled.2.2.config = session.daemon.config) session.world := by
    apply completes_bind
    rw [@serve_eq exactLibm session.daemon _ response _ (request_manyFrame small)]
    apply completes_bind
    apply creates.mono
    rintro result after ⟨_, items, pool, config⟩
    apply completes_pure
    apply completes_pure
    rw [settle_daemon]
    exact ⟨items, pool, config⟩
  obtain ⟨used, ⟨result, reply, daemon⟩, after, ⟨⟨map, items⟩, pool, config⟩, run⟩ :=
    dispatches.run (fun _ => .ok) fun _ => trivial
  obtain ⟨place, _, handled⟩ :=
    (@wp_dispatch_handled _ exactLibm _ _ growing.place (manyFrame n) response start).returned (run [])
  obtain ⟨_, ⟨within, _⟩, _⟩ := handled _ (request_manyFrame small)
  refine ⟨.request (manyFrame n) (.init 0 0) (supplied (fun _ => .ok) used ++ []),
    ⟨daemon, after, session.note (manyFrame n) reply⟩, ?_, ?_⟩
  · simp only [Session.step, Session.serve, opened, run []]
  · refine ⟨place, config.trans growing.config, pool, within.pid.trans growing.pid, ?_⟩
    have items : daemon.set.items = session.daemon.set.items ++ [.fresh (manyMeta n) map] := items
    simp only
    rw [items, List.map_append, growing.names, List.range_succ, List.map_append]
    rfl

theorem growing_run (count : Nat) : ∀ (n : Nat) (session : Session), Growing n session → n + count ≤ 4096 →
    ∃ events later, @Session.run exactLibm session events = some later ∧ Growing (n + count) later := by
  induction count with
  | zero => exact fun n session growing _ => ⟨[], session, rfl, growing⟩
  | succ count ih =>
    intro n session growing small
    obtain ⟨event, next, stepped, grown⟩ := growing.step (by omega)
    obtain ⟨events, later, ran, last⟩ := ih (n + 1) next grown (by omega)
    refine ⟨event :: events, later, ?_, ?_⟩
    · simp only [Session.run, stepped, Option.bind_some, ran]
    · rw [show n + (count + 1) = n + 1 + count by omega]
      exact last

/-- An empty installation takes in one filter more than the limit. -/
theorem filterLimit_exceeded :
    startup .plain demoRoots .empty plenty = .returned (.ok emptyDaemon) .empty (plenty.drop 2) ∧
    ∃ events session, @Session.run exactLibm ⟨emptyDaemon, .empty, fun _ => none⟩ events = some session ∧
      session.daemon.set.items.length = maxFilters + 1 := by
  have started : startup .plain demoRoots .empty plenty = .returned (.ok emptyDaemon) .empty (plenty.drop 2) := rfl
  have start : Growing 0 ⟨emptyDaemon, .empty, fun _ => none⟩ :=
    ⟨(startup_inPlace started).1, rfl, rfl, rfl, rfl⟩
  obtain ⟨events, session, ran, grown⟩ := growing_run (maxFilters + 1) 0 _ start (by decide)
  refine ⟨started, events, session, ran, ?_⟩
  have counted := congrArg List.length grown.names
  simpa using counted

/-- CREATE x, a sync, and ADD a to x -/
def shortSession : List Event :=
  [.request createView (.init 0 0) plenty, .sync 5000 true plenty,
    .request (frameOf 3 (storeU16 1 ++ storeU16 0 ++ storeU32 1 ++ bytes "x" ++ bytes "a") (by decide)) (.init 0 0)
      plenty]

theorem filterLimit_holds_short : ∃ session,
    @Session.run exactLibm ⟨emptyDaemon, .empty, fun _ => none⟩ shortSession = some session ∧
    session.daemon.set.items.map Filter.name = [bytes "x"] ∧ session.daemon.set.items.length ≤ maxFilters := by
  have started : startup .plain demoRoots .empty plenty = .returned (.ok emptyDaemon) .empty (plenty.drop 2) := rfl
  have ran : (@Session.run exactLibm ⟨emptyDaemon, .empty, fun _ => none⟩ shortSession).map
      (fun session => session.daemon.set.items.map Filter.name) = some [bytes "x"] := by
    decide +kernel
  obtain ⟨session, ended, names⟩ := Option.map_eq_some_iff.mp ran
  have few : FewLoadable .plain demoRoots .empty := by
    intro listed _ loadable
    cases listed with
    | nil => exact Nat.zero_le _
    | cons name rest =>
      obtain ⟨_, record, accepted, _⟩ := loadable name List.mem_cons_self
      obtain ⟨stored, present, _⟩ := accepted.decoded
      simp [World.fileAt, World.empty] at present
  have spares : @Session.SparesAll exactLibm ⟨emptyDaemon, .empty, fun _ => none⟩ shortSession := by
    refine ⟨fun _ _ _ => by decide, fun _ _ => ⟨trivial, fun _ _ => ⟨?_, fun _ _ => trivial⟩⟩⟩
    intro fields parsed
    have adds : ∃ name payload, (frameOf 3 (storeU16 1 ++ storeU16 0 ++ storeU32 1 ++ bytes "x" ++ bytes "a")
        (by decide)).request = some (.add name payload) := ⟨bytes "x", bytes "a", by decide⟩
    obtain ⟨name, payload, added⟩ := adds
    rw [added] at parsed
    cases parsed
  exact ⟨session, ended, names,
    (@filterLimit_holds exactLibm _ _ _ _ _ _ _ started few shortSession spares _ ended).1⟩

end Demo

end Bloomd
