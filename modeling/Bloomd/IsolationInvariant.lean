import Bloomd.MapOwnership
import Bloomd.ResponseSemantics
import Mathlib.Data.List.Perm.Basic

/-! Filter isolation within one daemon session: no two filters and no filter and the
pool share a kernel map, maps that may be recycled are empty, and a request leaves
every filter alone but the one it names. -/

namespace Bloomd

open CrashLogic Prog

/-- A daemon whose filters are in their places -/
def InPlace (roots : Config) (daemon : Daemon) (world : World) : Prop :=
  ∃ added, Serving (anyUpkeep roots) daemon added world

/-- The kernel maps that a daemon holds: those of its filters and the pooled one -/
def Daemon.heldMaps (daemon : Daemon) : List Nat :=
  daemon.set.items.map Filter.mapFd ++ (daemon.pool.map PooledMap.mapFd).toList

/-- `passed` gives for each filter that was created in the session the digests of the
payloads that were passed to it since. -/
structure Isolated (daemon : Daemon) (world : World) (passed : Bytes → Option (List Digest)) : Prop where
  distinct : daemon.heldMaps.Nodup
  empty : ∀ filter ∈ daemon.set.items, filter.metadata.hasData = false → world.contents filter.mapFd = []
  pooled : ∀ pooled ∈ daemon.pool, world.contents pooled.mapFd = []
  fresh : ∀ filter ∈ daemon.set.items, ∀ given, passed filter.name = some given →
    ∀ digest ∈ world.contents filter.mapFd, digest ∈ given

section Lists

variable {roots : Config} {daemon later : Daemon} {world : World} {passed : Bytes → Option (List Digest)}

theorem InPlace.bound (place : InPlace roots daemon world) : ∀ map ∈ daemon.heldMaps, map < world.maps.length := by
  obtain ⟨added, serving⟩ := place
  intro map member
  rcases List.mem_append.mp member with held | pooled
  · obtain ⟨filter, known, rfl⟩ := List.mem_map.mp held
    exact (serving.tended.settled filter known).matched.bound
  · obtain ⟨kept, holds, rfl⟩ := Option.map_eq_some_iff.mp (Option.mem_toList.mp pooled)
    have usable := serving.pool kept holds
      ⟨[], [], [], [], kept.capacity, 0, kept.hashes, kept.valueSize, 0, false, false⟩ rfl rfl rfl
    exact usable.bound

theorem Isolated.same_filter (isolated : Isolated daemon world passed) {filter other : Filter}
    (member : filter ∈ daemon.set.items) (known : other ∈ daemon.set.items) (same : other.mapFd = filter.mapFd) :
    other = filter :=
  List.inj_on_of_nodup_map (List.nodup_append.mp isolated.distinct).1 known member same

theorem Isolated.not_pooled (isolated : Isolated daemon world passed) {filter : Filter} {pooled : PooledMap}
    (member : filter ∈ daemon.set.items) (holds : pooled ∈ daemon.pool) : pooled.mapFd ≠ filter.mapFd := by
  intro same
  have held : pooled.mapFd ∈ (daemon.pool.map PooledMap.mapFd).toList := by
    rw [Option.mem_def.mp holds]
    exact List.mem_singleton_self _
  exact (List.nodup_append.mp isolated.distinct).2.2 _ (List.mem_map_of_mem member) _ held same.symm

end Lists

/-- The ghost record after a request: CREATE starts it, ADD and MADD add to it. -/
def noted (passed : Bytes → Option (List Digest)) : Request → Bool → Bytes → Option (List Digest)
  | .create fields, accepted => if accepted then Function.update passed fields.name (some []) else passed
  | request, _ => Function.update passed request.target ((passed request.target).map (· ++ request.digests))

section Steps

variable {roots : Config} {daemon later : Daemon} {before after : World}
  {passed : Bytes → Option (List Digest)} {request : Request} {reply : Reply} {accepted : Bool}

theorem noted_other {name : Bytes} (different : name ≠ request.target) :
    noted passed request accepted name = passed name := by
  cases request with
  | create fields =>
    simp only [noted]
    split
    · exact Function.update_of_ne different _ _
    · rfl
  | add | check | madd | mcheck | drop => exact Function.update_of_ne different _ _

theorem noted_own (unmade : ∀ fields, request ≠ .create fields) :
    noted passed request accepted request.target = (passed request.target).map (· ++ request.digests) := by
  cases request with
  | create fields => exact absurd rfl (unmade fields)
  | add | check | madd | mcheck | drop => exact Function.update_self _ _ _

/-- What was passed before counts on. -/
theorem noted_grows {name : Bytes} {given : List Digest}
    (unmade : ∀ fields, request = .create fields → accepted = false)
    (now : noted passed request accepted name = some given) : ∃ old, passed name = some old ∧ old ⊆ given := by
  by_cases same : name = request.target
  · subst same
    by_cases making : ∃ fields, request = .create fields
    · obtain ⟨fields, rfl⟩ := making
      rw [unmade fields rfl] at now
      exact ⟨given, now, List.Subset.refl _⟩
    · rw [noted_own fun fields made => making ⟨fields, made⟩] at now
      obtain ⟨old, was, rfl⟩ := Option.map_eq_some_iff.mp now
      exact ⟨old, was, List.subset_append_left _ _⟩
  · rw [noted_other same] at now
    exact ⟨given, now, List.Subset.refl _⟩

/-- Maps that stay with their holders and take in nothing -/
theorem Isolated.kept (isolated : Isolated daemon before passed)
    (items : later.set.items = daemon.set.items) (pool : later.pool = daemon.pool ∨ later.pool = none)
    (unmade : ∀ fields, request = .create fields → accepted = false) (feeds : Feeds nothing before after) :
    Isolated later after (noted passed request accepted) := by
  have sub : later.pool.toList.Sublist daemon.pool.toList := by
    rcases pool with same | gone
    · rw [same]
    · rw [gone]
      exact List.nil_sublist _
  constructor
  · refine List.Nodup.sublist ?_ isolated.distinct
    unfold Daemon.heldMaps
    rw [items]
    apply List.Sublist.append_left
    simpa [Option.toList_map] using sub.map PooledMap.mapFd
  · intro filter member unfilled
    rw [items] at member
    rw [feeds.kept]
    exact isolated.empty filter member unfilled
  · intro pooled holds
    rw [feeds.kept]
    rcases pool with same | gone
    · exact isolated.pooled pooled (same ▸ holds)
    · rw [gone] at holds
      cases holds
  · intro filter member given now digest inside
    rw [items] at member
    rw [feeds.kept] at inside
    obtain ⟨old, was, grown⟩ := noted_grows unmade now
    exact grown (isolated.fresh filter member old was digest inside)

/-- One filter took in what was passed to it. -/
theorem Isolated.worked (isolated : Isolated daemon before passed) {filter changed : Filter}
    (unique : (daemon.set.items.map Filter.name).Nodup) (found : daemon.set.items[index]? = some filter)
    (named : filter.name = request.target) (absorbed : Absorbed roots filter request.digests before changed after)
    (items : later.set.items = daemon.set.items.set index changed) (pool : later.pool = daemon.pool)
    (unmade : ∀ fields, request ≠ .create fields) : Isolated later after (noted passed request accepted) := by
  have member := List.mem_of_getElem? found
  have follows := absorbed.follows
  have apart : ∀ map, map ≠ filter.mapFd → after.contents map = before.contents map :=
    fun map different => absorbed.works.feeds.untouched fun _ permitted => different permitted.1
  have others : ∀ other, other ∈ daemon.set.items → other.name ≠ filter.name →
      after.contents other.mapFd = before.contents other.mapFd := by
    intro other known different
    apply apart
    intro same
    exact different (congrArg Filter.name (isolated.same_filter member known same))
  constructor
  · unfold Daemon.heldMaps
    rw [items, map_set_same Filter.mapFd found follows.mapFd, pool]
    exact isolated.distinct
  · intro other known unfilled
    rw [items] at known
    rcases mem_set_cases unique found known with rfl | ⟨old, different⟩
    · have was : filter.metadata.hasData = false := by
        by_contra data
        rw [follows.data (by simpa using data)] at unfilled
        cases unfilled
      rw [follows.mapFd, (absorbed.unfilled unfilled).kept]
      exact isolated.empty filter member was
    · rw [others other old different]
      exact isolated.empty other old unfilled
  · intro pooled holds
    rw [pool] at holds
    rw [apart _ (isolated.not_pooled member holds)]
    exact isolated.pooled pooled holds
  · intro other known given now digest inside
    rw [items] at known
    rcases mem_set_cases unique found known with rfl | ⟨old, different⟩
    · rw [follows.mapFd] at inside
      rw [follows.name, named, noted_own unmade] at now
      obtain ⟨was, held, rfl⟩ := Option.map_eq_some_iff.mp now
      obtain ⟨more, split, all⟩ := absorbed.works.feeds.fed filter.mapFd
      rw [split] at inside
      rcases List.mem_append.mp inside with early | late
      · rw [← named] at held
        exact List.mem_append_left _ (isolated.fresh filter member was held digest early)
      · exact List.mem_append_right _ (all digest late).2
    · rw [others other old different] at inside
      rw [noted_other (by rw [← named]; exact different)] at now
      exact isolated.fresh other old given now digest inside

/-- A new filter has an empty map that nobody else holds. -/
theorem Isolated.created (isolated : Isolated daemon before passed) {filter : Filter}
    (bound : ∀ map ∈ daemon.heldMaps, map < before.maps.length) (named : filter.name = request.target)
    (missing : ∀ other ∈ daemon.set.items, other.name ≠ filter.name)
    (source : (filter.mapFd = before.maps.length ∧ later.pool = daemon.pool) ∨
      ∃ pooled, daemon.pool = some pooled ∧ filter.mapFd = pooled.mapFd ∧ later.pool = none)
    (items : later.set.items = daemon.set.items ++ [filter]) (feeds : Feeds nothing before after) :
    Isolated later after (noted passed request accepted) := by
  have empty : after.contents filter.mapFd = [] := by
    rw [feeds.kept]
    rcases source with ⟨new, _⟩ | ⟨pooled, holds, taken, _⟩
    · simp [new, World.contents]
    · rw [taken]
      exact isolated.pooled pooled holds
  constructor
  · unfold Daemon.heldMaps
    rw [items, List.map_append]
    rcases source with ⟨new, pool⟩ | ⟨pooled, holds, taken, pool⟩
    · have outside : filter.mapFd ∉ daemon.heldMaps := by
        intro inside
        have := bound _ inside
        omega
      have moved : (daemon.set.items.map Filter.mapFd ++ [filter.mapFd] ++
          (daemon.pool.map PooledMap.mapFd).toList).Perm (filter.mapFd :: daemon.heldMaps) := by
        rw [List.append_assoc]
        exact List.perm_middle
      rw [pool]
      exact moved.nodup_iff.mpr (List.nodup_cons.mpr ⟨outside, isolated.distinct⟩)
    · have same := isolated.distinct
      unfold Daemon.heldMaps at same
      rw [holds] at same
      rw [pool]
      simpa [taken] using same
  · intro other known unfilled
    rw [items] at known
    rcases List.mem_append.mp known with old | new
    · rw [feeds.kept]
      exact isolated.empty other old unfilled
    · rw [List.mem_singleton.mp new]
      exact empty
  · intro pooled holds
    rcases source with ⟨_, pool⟩ | ⟨_, _, _, pool⟩
    · rw [feeds.kept]
      exact isolated.pooled pooled (pool ▸ holds)
    · rw [pool] at holds
      cases holds
  · intro other known given now digest inside
    rw [items] at known
    rcases List.mem_append.mp known with old | new
    · rw [feeds.kept] at inside
      rw [noted_other (by rw [← named]; exact missing other old)] at now
      exact isolated.fresh other old given now digest inside
    · rw [List.mem_singleton.mp new, empty] at inside
      cases inside

/-- A dropped filter gives up its map, to the pool if it is empty. -/
theorem Isolated.dropped (isolated : Isolated daemon before passed) {filter : Filter}
    (found : daemon.set.items[index]? = some filter) (items : later.set.items = daemon.set.items.eraseIdx index)
    (pool : later.pool.map PooledMap.mapFd =
      if filter.metadata.hasData then daemon.pool.map PooledMap.mapFd else some filter.mapFd)
    (unmade : ∀ fields, request ≠ .create fields) (feeds : Feeds nothing before after) :
    Isolated later after (noted passed request accepted) := by
  have member := List.mem_of_getElem? found
  obtain ⟨position, rfl⟩ := List.getElem?_eq_some_iff.mp found
  constructor
  · unfold Daemon.heldMaps
    rw [items, pool]
    split
    · refine List.Nodup.sublist ?_ isolated.distinct
      exact List.Sublist.append_right ((List.eraseIdx_sublist _ _).map _) _
    · have moved : ((daemon.set.items.eraseIdx index).map Filter.mapFd ++
          (some daemon.set.items[index].mapFd).toList).Perm (daemon.set.items.map Filter.mapFd) := by
        have split := (List.getElem_cons_eraseIdx_perm position).map Filter.mapFd
        exact List.perm_append_comm.trans split
      exact moved.nodup_iff.mpr (List.nodup_append.mp isolated.distinct).1
  · intro other known unfilled
    rw [items] at known
    rw [feeds.kept]
    exact isolated.empty other (List.mem_of_mem_eraseIdx known) unfilled
  · intro pooled holds
    have held : later.pool.map PooledMap.mapFd = some pooled.mapFd := by
      rw [Option.mem_def.mp holds]
      rfl
    rw [feeds.kept]
    rw [pool] at held
    split at held
    · obtain ⟨old, was, same⟩ := Option.map_eq_some_iff.mp held
      rw [← same]
      exact isolated.pooled old was
    · rename_i unfilled
      rw [← Option.some.inj held]
      exact isolated.empty _ member (by simpa using unfilled)
  · intro other known given now digest inside
    rw [items] at known
    rw [feeds.kept] at inside
    obtain ⟨old, was, grown⟩ := noted_grows (fun fields same => absurd same (unmade fields)) now
    exact grown (isolated.fresh other (List.mem_of_mem_eraseIdx known) old was digest inside)

/-- What one request preserves -/
theorem Isolated.handling (isolated : Isolated daemon before passed) (place : InPlace roots daemon before)
    (handling : Handling roots daemon request before reply later after)
    (answered : accepted = true → reply.status = .ok) : Isolated later after (noted passed request accepted) := by
  obtain ⟨added, serving⟩ := place
  cases handling with
  | kept items pool unmade feeds =>
    apply isolated.kept items pool _ feeds
    intro fields same
    by_contra yes
    exact unmade fields same (answered (by simpa using yes))
  | worked found named absorbed items pool unmade =>
    exact isolated.worked serving.tended.unique found named absorbed items pool unmade
  | created making named missing unfilled source items feeds =>
    exact isolated.created (InPlace.bound ⟨added, serving⟩) named missing source items feeds
  | dropped found named items pool unmade feeds => exact isolated.dropped found items pool unmade feeds

theorem map_mapFd_follow {items later : List Filter} (follow : List.Forall₂ (Follows roots) items later) :
    later.map Filter.mapFd = items.map Filter.mapFd := by
  induction follow with
  | nil => rfl
  | cons head tail ih => rw [List.map_cons, List.map_cons, head.mapFd, ih]

/-- What a sync preserves: flags may change, maps do not. -/
theorem Isolated.synced (isolated : Isolated daemon before passed) {set : FilterSet}
    (follow : List.Forall₂ (Follows roots) daemon.set.items set.items) (feeds : Feeds nothing before after) :
    Isolated { daemon with set } after passed := by
  constructor
  · unfold Daemon.heldMaps
    rw [map_mapFd_follow follow]
    exact isolated.distinct
  · intro filter member unfilled
    obtain ⟨old, known, follows⟩ := exists_of_forall₂_right follow member
    rw [feeds.kept, follows.mapFd]
    apply isolated.empty old known
    by_contra data
    rw [follows.data (by simpa using data)] at unfilled
    cases unfilled
  · intro pooled holds
    rw [feeds.kept]
    exact isolated.pooled pooled holds
  · intro filter member given now digest inside
    obtain ⟨old, known, follows⟩ := exists_of_forall₂_right follow member
    rw [feeds.kept, follows.mapFd] at inside
    rw [follows.name] at now
    exact isolated.fresh old known given now digest inside

theorem keeps_syncFilters (now : Nat) (force : Bool) {items : List Filter}
    (seated : ∀ filter ∈ items, Seated roots filter) :
    Keeps (Feeds nothing) (syncFilters now force items) fun later => List.Forall₂ (Follows roots) items later := by
  induction items with
  | nil => exact .pure .nil
  | cons filter rest ih =>
    refine .bind (keeps_syncFilterLog (seated filter List.mem_cons_self) now force) fun later follows => ?_
    refine .bind (ih fun other member => seated other (List.mem_cons_of_mem _ member)) fun more tail => ?_
    exact .pure (.cons follows tail)

/-- A filter that a request does not name: in memory and on disk it is as it was. -/
structure LeftAlone (filter : Filter) (later : Daemon) (before after : World) : Prop where
  member : filter ∈ later.set.items
  contents : after.contents filter.mapFd = before.contents filter.mapFd
  file : after.fileAt filter.metadata.metaPath = before.fileAt filter.metadata.metaPath
  log : after.logAt filter.metadata.logPath = before.logAt filter.metadata.logPath

/-- A filter that a request does not name stays in the set. -/
theorem Handling.member (handling : Handling roots daemon request before reply later after) {filter : Filter}
    (member : filter ∈ daemon.set.items) (different : filter.name ≠ request.target) : filter ∈ later.set.items := by
  cases handling with
  | kept items pool unmade feeds => exact items ▸ member
  | worked found named absorbed items pool unmade =>
    rename_i index own changed
    obtain ⟨position, there⟩ := List.mem_iff_getElem?.mp member
    rw [items]
    refine List.mem_iff_getElem?.mpr ⟨position, ?_⟩
    rw [List.getElem?_set_ne, there]
    rintro rfl
    rw [found] at there
    exact different (Option.some.inj there ▸ named)
  | created making named missing unfilled source items feeds => exact items ▸ List.mem_append_left _ member
  | dropped found named items pool unmade feeds =>
    rename_i index own
    obtain ⟨position, there⟩ := List.mem_iff_getElem?.mp member
    rw [items]
    refine List.mem_eraseIdx_iff_getElem?.mpr ⟨position, ?_, there⟩
    rintro rfl
    rw [found] at there
    exact different (Option.some.inj there ▸ named)

theorem Isolated.leftAlone (isolated : Isolated daemon before passed) (place : InPlace roots daemon before)
    (within : Within request.target before after) (handling : Handling roots daemon request before reply later after)
    {filter : Filter} (member : filter ∈ daemon.set.items) (different : filter.name ≠ request.target) :
    LeftAlone filter later before after := by
  obtain ⟨added, serving⟩ := place
  have placed := (serving.tended.settled filter member).seated.placed
  have apart := within.apart different
  have file : after.fileAt filter.metadata.metaPath = before.fileAt filter.metadata.metaPath :=
    apart.files _ placed.metaLeaf
  have log : after.logAt filter.metadata.logPath = before.logAt filter.metadata.logPath :=
    apart.logs _ placed.logLeaf
  have still := handling.member member different
  cases handling with
  | kept items pool unmade feeds => exact ⟨still, feeds.kept _, file, log⟩
  | worked found named absorbed items pool unmade =>
    rename_i index own changed
    have elsewhere : filter.mapFd ≠ own.mapFd := by
      intro same
      rw [isolated.same_filter (List.mem_of_getElem? found) member same] at different
      exact different named
    exact ⟨still, absorbed.works.feeds.untouched fun _ permitted => elsewhere permitted.1, file, log⟩
  | created making named missing unfilled source items feeds => exact ⟨still, feeds.kept _, file, log⟩
  | dropped found named items pool unmade feeds => exact ⟨still, feeds.kept _, file, log⟩

end Steps

/-- One daemon process from its start on: its memory, the world, and what was passed
to the filters that it created -/
structure Session where
  daemon : Daemon
  world : World
  passed : Bytes → Option (List Digest)

/-- The request of a frame, for the opcodes that work on filters -/
def RequestView.request (view : RequestView) : Option Request := parseRequest view.header.opcode view.body

/-- The ghost record after a frame was answered -/
def Session.note (session : Session) (view : RequestView) (response : Response) : Bytes → Option (List Digest) :=
  match view.request with
  | none => session.passed
  | some request => noted session.passed request (response.header.status == Status.ok.code)

/-- One frame is dispatched; `none` if the process dies in the course of it. -/
def Session.serve [Libm] (session : Session) (view : RequestView) (previous : Response) (answers : List Answer) :
    Option Session :=
  match dispatch session.daemon view (previous.reset view.header.opcode view.header.requestId)
      session.world answers with
  | .crashed _ => none
  | .returned (_, response, daemon) world _ => some ⟨daemon, world, session.note view response⟩

def Session.sync (session : Session) (now : Nat) (force : Bool) (answers : List Answer) : Option Session :=
  match syncDirtyLogs session.daemon.set now force session.world answers with
  | .crashed _ => none
  | .returned set world _ => some { session with daemon := { session.daemon with set }, world }

/-- A frame with any header and body, or a sync between two frames -/
inductive Event where
  | request (view : RequestView) (previous : Response) (answers : List Answer)
  | sync (now : Nat) (force : Bool) (answers : List Answer)

def Session.step [Libm] (session : Session) : Event → Option Session
  | .request view previous answers => session.serve view previous answers
  | .sync now force answers => session.sync now force answers

def Session.run [Libm] : Session → List Event → Option Session
  | session, [] => some session
  | session, event :: events => (session.step event).bind fun next => next.run events

section Session

variable {roots : Config} {session later : Session}

/-- The invariant of a session -/
structure Session.Sound (roots : Config) (session : Session) : Prop where
  place : InPlace roots session.daemon session.world
  isolated : Isolated session.daemon session.world session.passed

theorem Serving.unmoved {upkeep : Upkeep roots} {daemon later : Daemon} {added : Bytes → List Digest} {world : World}
    (serving : Serving upkeep daemon added world) (unmoved : daemon.Unmoved later) :
    Serving upkeep later added world := by
  obtain ⟨lastIndex, rfl⟩ := unmoved
  exact ⟨serving.config, serving.pool, serving.tended⟩

/-- What one frame does to a daemon whose filters are in their places -/
theorem wp_dispatch_handled [Libm] {daemon : Daemon} {world : World} (place : InPlace roots daemon world)
    (view : RequestView) {start : Response} (fresh : start.header.status = Status.ok.code) :
    wp (dispatch daemon view start)
      (fun settled after => InPlace roots settled.2.2 after ∧
        (view.request = none → after = world ∧ daemon.Unmoved settled.2.2) ∧
        ∀ request, view.request = some request → ∃ reply,
          Handled roots daemon request world (reply, settled.2.2) after ∧
          (settled.2.1.header.status = Status.ok.code → reply.status = .ok)) (fun _ => True) world := by
  obtain ⟨added, serving⟩ := place
  apply wp_bind
  cases parsed : view.request with
  | none =>
    refine (wp_serve_unparsed daemon start world parsed).mono ?_ fun _ _ => trivial
    rintro served after ⟨rfl, unmoved⟩
    apply (wp_pure _).mpr
    rw [settle_daemon]
    exact ⟨⟨added, serving.unmoved unmoved⟩, fun _ => ⟨rfl, unmoved⟩, nofun⟩
  | some request =>
    rw [serve_eq daemon _ parsed]
    apply wp_bind
    have serves := @wp_handle _ _ daemon added world [] _ request serving (by cases request <;> trivial)
    refine (serves.and (wp_handle_handled serving request)).mono ?_ fun _ _ => trivial
    rintro ⟨reply, later⟩ after ⟨still, handled⟩
    apply (wp_pure _).mpr
    apply (wp_pure _).mpr
    rw [settle_daemon]
    refine ⟨⟨_, still⟩, nofun, ?_⟩
    rintro _ ⟨⟩
    refine ⟨reply, handled, fun accepted => ?_⟩
    obtain ⟨_, _, status⟩ := settle_success accepted
    rw [send_status reply fresh] at status
    exact Status.code_injective status

/-- What one frame preserves, and what it leaves alone -/
theorem wp_dispatch_sound [Libm] (sound : session.Sound roots) (view : RequestView) (previous : Response) :
    wp (dispatch session.daemon view (previous.reset view.header.opcode view.header.requestId))
      (fun settled after =>
        Session.Sound roots ⟨settled.2.2, after, session.note view settled.2.1⟩ ∧
        ∀ filter ∈ session.daemon.set.items, view.request.map Request.target ≠ some filter.name →
          LeftAlone filter settled.2.2 session.world after) (fun _ => True) session.world := by
  refine (wp_dispatch_handled sound.place view rfl).mono ?_ fun _ _ => trivial
  rintro settled after ⟨place, aside, handled⟩
  cases parsed : view.request with
  | none =>
    obtain ⟨rfl, lastIndex, same⟩ := aside parsed
    rw [same] at place ⊢
    rw [Session.note, parsed]
    refine ⟨⟨place, ?_⟩, ?_⟩
    · exact ⟨sound.isolated.distinct, sound.isolated.empty, sound.isolated.pooled, sound.isolated.fresh⟩
    · intro filter member _
      exact ⟨member, rfl, rfl, rfl⟩
  | some request =>
    obtain ⟨reply, ⟨within, handling⟩, answered⟩ := handled request parsed
    refine ⟨⟨place, ?_⟩, ?_⟩
    · rw [Session.note, parsed]
      apply sound.isolated.handling sound.place handling
      intro accepted
      exact answered (of_decide_eq_true accepted)
    · intro filter member different
      apply sound.isolated.leftAlone sound.place within handling member
      intro same
      exact different (congrArg some same.symm)

theorem Session.Sound.serve [Libm] (sound : session.Sound roots) {view : RequestView} {previous : Response}
    {answers : List Answer} (served : session.serve view previous answers = some later) :
    later.Sound roots ∧
      ∀ filter ∈ session.daemon.set.items, view.request.map Request.target ≠ some filter.name →
        LeftAlone filter later.daemon session.world later.world := by
  unfold Session.serve at served
  split at served
  · cases served
  · rename_i returned
    cases served
    exact (wp_dispatch_sound sound view previous).returned returned

theorem Session.Sound.sync (sound : session.Sound roots) {now : Nat} {force : Bool} {answers : List Answer}
    (synced : session.sync now force answers = some later) : later.Sound roots := by
  obtain ⟨added, serving⟩ := sound.place
  have spec : wp (syncDirtyLogs session.daemon.set now force)
      (fun set after => Session.Sound roots { session with daemon := { session.daemon with set }, world := after })
      (fun _ => True) session.world := by
    have follow : Keeps (Feeds nothing) (syncDirtyLogs session.daemon.set now force) fun set =>
        List.Forall₂ (Follows roots) session.daemon.set.items set.items :=
      .bind (keeps_syncFilters now force fun filter member => (serving.tended.settled filter member).seated)
        fun _ held => .pure held
    refine ((wp_syncDirtyLogs serving (fun _ _ _ => trivial) now force).and (follow session.world)).mono ?_
      fun _ _ => trivial
    rintro set after ⟨still, held, feeds⟩
    exact ⟨⟨added, still⟩, sound.isolated.synced held feeds⟩
  unfold Session.sync at synced
  split at synced
  · cases synced
  · rename_i returned
    cases synced
    exact spec.returned returned

/-- What a run preserves -/
theorem Session.Sound.run [Libm] (events : List Event) : ∀ {session : Session}, session.Sound roots →
    session.run events = some later → later.Sound roots := by
  induction events with
  | nil =>
    intro session sound ran
    cases ran
    exact sound
  | cons event events ih =>
    intro session sound ran
    obtain ⟨next, stepped, onward⟩ := Option.bind_eq_some_iff.mp ran
    cases event with
    | request view previous answers => exact ih (sound.serve stepped).1 onward
    | sync now force answers => exact ih (sound.sync stepped) onward

/-- A startup puts every filter in its place, and its pool is empty. -/
theorem startup_inPlace {env : Env} {config : Config} {daemon : Daemon} {world loaded : World}
    {answers rest : List Answer} (started : startup env config world answers = .returned (.ok daemon) loaded rest) :
    InPlace config daemon loaded ∧ daemon.pool = none := by
  have resting : Resting (anyUpkeep config) (fun _ => []) world := fun _ _ => trivial
  have unpooled : wp (startup env config) (fun result _ => ∀ daemon, result = .ok daemon → daemon.pool = none)
      (fun _ => True) world := by
    apply wp_bind
    refine (wp_trivial _).mono ?_ fun _ _ => trivial
    rintro ⟨result, loading⟩ after _
    cases result with
    | error failure => exact wp_bind ((wp_trivial _).mono (fun _ _ _ => (wp_pure _).mpr nofun) fun _ _ => trivial)
    | ok done =>
      apply wp_bind
      refine (wp_trivial _).mono ?_ fun _ _ => trivial
      rintro ⟨cleaned, loading⟩ last _
      cases cleaned with
      | error errno => exact wp_bind ((wp_trivial _).mono (fun _ _ _ => (wp_pure _).mpr nofun) fun _ _ => trivial)
      | ok done =>
        apply (wp_pure _).mpr
        rintro daemon ⟨⟩
        rfl
  exact ⟨⟨_, (wp_startup env config.logSyncMode resting).returned started⟩, unpooled.returned started daemon rfl⟩

end Session

/-- From any loaded set of filters with maps of their own, in every state of the
session: filters and pool hold different maps, maps that may be recycled are empty, a
filter created in the session has only what was passed to it, and the next frame
leaves every filter alone but the one it names. -/
theorem filters_isolated [Libm] {env : Env} {config : Config} {daemon : Daemon} {world loaded : World}
    {answers rest : List Answer} (started : startup env config world answers = .returned (.ok daemon) loaded rest)
    (distinct : (daemon.set.items.map Filter.mapFd).Nodup)
    (empty : ∀ filter ∈ daemon.set.items, filter.metadata.hasData = false → loaded.contents filter.mapFd = [])
    (events : List Event) {session : Session}
    (ran : Session.run ⟨daemon, loaded, fun _ => none⟩ events = some session) :
    session.daemon.heldMaps.Nodup ∧
    (∀ filter ∈ session.daemon.set.items, filter.metadata.hasData = false →
      session.world.contents filter.mapFd = []) ∧
    (∀ pooled ∈ session.daemon.pool, session.world.contents pooled.mapFd = []) ∧
    (∀ filter ∈ session.daemon.set.items, ∀ given, session.passed filter.name = some given →
      ∀ digest ∈ session.world.contents filter.mapFd, digest ∈ given) ∧
    ∀ view previous answers later, session.serve view previous answers = some later →
      ∀ filter ∈ session.daemon.set.items, view.request.map Request.target ≠ some filter.name →
        LeftAlone filter later.daemon session.world later.world := by
  obtain ⟨place, unpooled⟩ := startup_inPlace started
  have start : Session.Sound config ⟨daemon, loaded, fun _ => none⟩ := by
    refine ⟨place, ?_, empty, ?_, nofun⟩
    · simpa [Daemon.heldMaps, unpooled] using distinct
    · intro pooled holds
      simp [unpooled] at holds
  have sound := start.run events ran
  refine ⟨sound.isolated.distinct, sound.isolated.empty, sound.isolated.pooled, sound.isolated.fresh, ?_⟩
  intro view previous answers later served
  exact (sound.serve served).2

/-- Metadata with the parameters of the small installation -/
def pairRecord (name : Bytes) (hasData : Bool) : MetaRecord :=
  ⟨name, backendName, digestName, bytes "/p/" ++ name, 100, 0x3f847ae147ae147b, 3, digestSize, metadataVersion,
    hasData, true⟩

/-- Two filters on disk, x with a digest in its pinned map and y without data -/
def pairWorld : World :=
  ((((World.empty.setFile (bytes "/m/x.meta") (some (pairRecord (bytes "x") true))).setFile (bytes "/m/y.meta")
    (some (pairRecord (bytes "y") false))).setLog (bytes "/m/x.digests") ⟨List.replicate 16 9, []⟩).addMap
    ⟨createdMapInfo 100 3, [⟨List.replicate 16 9, rfl⟩]⟩).setPin (bytes "/p/x") 0

/-- DROP y, CREATE z, a sync, and ADD a to z -/
def reuseSession : List Event :=
  [.request (frameOf 9 (storeU16 1 ++ storeU16 0 ++ storeU32 0 ++ bytes "y") (by decide)) (.init 0 0) plenty,
    .request (frameOf 2 (storeU64 100 ++ storeDouble 0x3f847ae147ae147b ++ storeU32 3 ++ storeU16 1 ++ storeU16 0 ++
      bytes "z") (by decide)) (.init 0 0) plenty,
    .sync 5000 true plenty,
    .request (frameOf 3 (storeU16 1 ++ storeU16 0 ++ storeU32 1 ++ bytes "z" ++ bytes "a") (by decide)) (.init 0 0)
      plenty]

/-- What a startup of the small installation makes of a world, as `view` shows it -/
def startedView {α : Type} (world : World) (view : Daemon → World → α) : Option α :=
  match startup .plain demoRoots world plenty with
  | .returned (.ok daemon) loaded _ => some (view daemon loaded)
  | _ => none

theorem started_of_view {α : Type} {world : World} {view : Daemon → World → α} {seen : α}
    (given : startedView world view = some seen) :
    ∃ daemon loaded rest, startup .plain demoRoots world plenty = .returned (.ok daemon) loaded rest ∧
      view daemon loaded = seen := by
  unfold startedView at given
  split at given
  · rename_i daemon loaded rest started
    exact ⟨daemon, loaded, rest, started, Option.some.inj given⟩
  · cases given

/-- The names and maps of the filters -/
def Session.holdings (session : Session) : List (Bytes × Nat) :=
  session.daemon.set.items.map fun filter => (filter.name, filter.mapFd)

/-- What is served at first, whether the filters without data have empty maps, and what
`reuseSession` makes of it -/
def reuseOutcome (daemon : Daemon) (loaded : World) : List (Bytes × Nat) × Bool × Option (List (Bytes × Nat)) :=
  (Session.holdings ⟨daemon, loaded, fun _ => none⟩,
    daemon.set.items.all fun filter => filter.metadata.hasData || (loaded.contents filter.mapFd).isEmpty,
    (@Session.run exactLibm ⟨daemon, loaded, fun _ => none⟩ reuseSession).map Session.holdings)

/-- The new filter has the map of the dropped one. -/
theorem filters_isolated_reuse : ∃ daemon loaded rest session,
    startup .plain demoRoots pairWorld plenty = .returned (.ok daemon) loaded rest ∧
    Session.holdings ⟨daemon, loaded, fun _ => none⟩ = [(bytes "y", 1), (bytes "x", 0)] ∧
    @Session.run exactLibm ⟨daemon, loaded, fun _ => none⟩ reuseSession = some session ∧
    session.holdings = [(bytes "x", 0), (bytes "z", 1)] ∧ session.daemon.heldMaps.Nodup ∧
    ∀ filter ∈ session.daemon.set.items, ∀ given, session.passed filter.name = some given →
      ∀ digest ∈ session.world.contents filter.mapFd, digest ∈ given := by
  have seen : startedView pairWorld reuseOutcome =
      some ([(bytes "y", 1), (bytes "x", 0)], true, some [(bytes "x", 0), (bytes "z", 1)]) := by
    decide +kernel
  obtain ⟨daemon, loaded, rest, started, outcome⟩ := started_of_view seen
  obtain ⟨held, unfilled, ran⟩ : _ ∧ _ ∧ _ := by simpa only [reuseOutcome, Prod.mk.injEq] using outcome
  obtain ⟨session, ended, now⟩ := Option.map_eq_some_iff.mp ran
  have distinct : (daemon.set.items.map Filter.mapFd).Nodup := by
    have maps : daemon.set.items.map Filter.mapFd = [1, 0] := by
      have second := congrArg (List.map Prod.snd) held
      rwa [Session.holdings, List.map_map] at second
    rw [maps]
    decide
  have empty : ∀ filter ∈ daemon.set.items, filter.metadata.hasData = false → loaded.contents filter.mapFd = [] := by
    intro filter member bare
    have checked := List.all_eq_true.mp unfilled filter member
    rw [bare, Bool.false_or] at checked
    exact List.isEmpty_iff.mp checked
  have isolated := @filters_isolated exactLibm _ _ _ _ _ _ _ started distinct empty _ _ ended
  exact ⟨daemon, loaded, rest, session, started, held, ended, now, isolated.1, isolated.2.2.2.1⟩

end Bloomd
