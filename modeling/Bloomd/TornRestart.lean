import Bloomd.FailedAdd
import Bloomd.IsolationInvariant
import Bloomd.LogSession
import Bloomd.StartupDamage

/-! The log of a filter over one session of the daemon. Digests that are appended to a log
of whole records are found again by a replay; the loader opens the log for appending
without a look at its length, so behind a torn record they are not. -/

namespace Bloomd

open CrashLogic Prog

/-- A filter whose log holds whole records, among them, with those in its buffer, the
given digests in this order -/
structure Appends (roots : Config) (mode : LogSyncMode) (filter : Filter) (digests : List Digest)
    (world : World) : Prop where
  durable : filter.metadata.hasData = true
  opened : filter.logFd = some (roots.logPathOf filter.name)
  whole : filter.logBuf.length % digestSize = 0
  room : filter.logBuf.length ≤ logBufferCap
  drained : filter.logDirty = false → filter.logBuf = []
  emptied : mode = .always → filter.logBuf = []
  logged : ∃ log, world.logAt (roots.logPathOf filter.name) = some log ∧ log.data.length % digestSize = 0 ∧
    digests.Sublist (Framing.records digestSize (log.data ++ filter.logBuf))

section Filters

variable {roots : Config} {mode : LogSyncMode} {filter : Filter} {digests : List Digest} {world after : World}

/-- A log whose buffer is empty is read back by a replay. -/
theorem Appends.replays (appends : Appends roots mode filter digests world) (empty : filter.logBuf = []) :
    LogSession.Replays (roots.logPathOf filter.name) digests world := by
  obtain ⟨log, present, _, held⟩ := appends.logged
  rw [empty, List.append_nil] at held
  exact (LogSession.replays_iff present).mpr held

theorem Appends.left (appends : Appends roots mode filter digests world)
    (same : after.logAt (roots.logPathOf filter.name) = world.logAt (roots.logPathOf filter.name)) :
    Appends roots mode filter digests after := by
  refine { appends with logged := ?_ }
  rw [same]
  exact appends.logged

theorem Appends.apart (appends : Appends roots mode filter digests world) (placed : Placed roots filter.metadata)
    (apart : Apart filter.name world after) : Appends roots mode filter digests after :=
  appends.left (apart.logAt placed.valid roots)

/-- The counters and the metadata flags play no part. -/
theorem Appends.retold {later : Filter} (appends : Appends roots mode filter digests world)
    (named : later.name = filter.name)
    (durable : later.metadata.hasData = true) (opened : later.logFd = filter.logFd)
    (buffer : later.logBuf = filter.logBuf)
    (dirty : later.logDirty = filter.logDirty) : Appends roots mode later digests world where
  durable := durable
  opened := by rw [opened, named, appends.opened]
  whole := buffer ▸ appends.whole
  room := buffer ▸ appends.room
  drained clean := by rw [buffer, appends.drained (dirty ▸ clean)]
  emptied always := by rw [buffer, appends.emptied always]
  logged := by
    rw [named, buffer]
    exact appends.logged

/-- In `periodic` mode a committed digest leaves the log dirty. -/
theorem wp_addStaged_dirty (digest : Digest) (undo : Bool) : wp (addStaged filter digest .periodic undo)
    (fun result _ => result.1 = .ok () → result.2.logDirty = true) (fun _ => True) world := by
  apply wp_bind
  apply (wp_trivial _).mono _ fun _ _ => trivial
  rintro ⟨staged, later⟩ middle _
  cases staged with
  | error errno =>
    apply wp_bind
    exact (wp_trivial _).mono (fun _ _ _ => (wp_pure _).mpr nofun) fun _ _ => trivial
  | ok stage =>
    apply wp_bind
    apply (wp_trivial _).mono _ fun _ _ => trivial
    intro updated last _
    cases updated with
    | error failure =>
      apply wp_bind
      apply (wp_trivial _).mono _ fun _ _ => trivial
      intro rolled final _
      apply wp_bind
      exact (wp_trivial _).mono (fun _ _ _ => (wp_pure _).mpr nofun) fun _ _ => trivial
    | ok done =>
      apply wp_bind
      exact (wp_pure _).mpr ((wp_pure _).mpr fun _ => rfl)

/-- A digest that was added follows those before it. -/
theorem wp_addStaged_appends (appends : Appends roots mode filter digests world)
    (placed : Placed roots filter.metadata) (digest : Digest) (undo : Bool) : wp (addStaged filter digest mode undo)
      (fun result after => result.1 = .ok () → result.2.name = filter.name ∧ Placed roots result.2.metadata ∧
        Appends roots mode result.2 (digests ++ [digest]) after) (fun _ => True) world := by
  obtain ⟨log, present, aligned, held⟩ := appends.logged
  have dirties : wp (addStaged filter digest mode undo)
      (fun result _ => result.1 = .ok () → mode = .periodic → result.2.logDirty = true) (fun _ => True) world := by
    cases mode with
    | always => exact (wp_trivial _).mono (fun _ _ _ _ => LogSyncMode.noConfusion) fun _ _ => trivial
    | periodic => exact (wp_addStaged_dirty digest undo).mono (fun _ _ marked done _ => marked done) fun _ _ => trivial
  apply ((wp_addStaged placed appends.opened present appends.whole appends.room digest mode undo).and dirties).mono _
    fun _ _ => trivial
  rintro ⟨added, later⟩ after ⟨addition, marked⟩ succeeded
  obtain rfl : added = .ok () := succeeded
  generalize viewed : after.view roots filter.name = view at addition
  cases addition with
  | added buf log' dirty now advance =>
    refine ⟨rfl, placed, ?_⟩
    have there : after.logAt (roots.logPathOf filter.name) = some log' := congrArg View.log viewed
    exact {
      durable := appends.durable
      opened := appends.opened
      whole := advance.whole
      room := advance.room
      drained := by
        intro clean
        cases mode with
        | always => exact (advance.synced rfl).1
        | periodic => exact absurd ((marked rfl rfl).symm.trans clean) Bool.noConfusion
      emptied := fun always => (advance.synced always).1
      logged := by
        refine ⟨log', there, advance.aligned aligned, ?_⟩
        change (digests ++ [digest]).Sublist (Framing.records digestSize (log'.data ++ buf))
        rw [advance.records appends.whole aligned]
        exact held.append (List.Sublist.refl _) }

theorem wp_prepareAdd_appends (appends : Appends roots mode filter digests world)
    (placed : Placed roots filter.metadata) : wp (prepareAdd filter mode)
      (fun result after => EndsFailed result.1 ∧ result.2.name = filter.name ∧ Placed roots result.2.metadata ∧
        Appends roots mode result.2 digests after) (fun _ => True) world := by
  apply (((returns_prepareAdd filter mode).wp world).and
    (wp_prepareAdd_left placed appends.durable appends.opened mode)).mono _ fun _ _ => trivial
  rintro ⟨prepared, later⟩ after ⟨failed, ⟨logClean, changed⟩, seen⟩
  have changed : later = { filter with metadata := filter.metadata.withState true logClean } := changed
  subst changed
  refine ⟨failed, rfl, placed.withState true logClean, ?_⟩
  have kept : Appends roots mode filter digests after := appends.left seen
  exact kept.retold rfl rfl rfl rfl rfl

theorem wp_addDigest_appends (appends : Appends roots mode filter digests world)
    (placed : Placed roots filter.metadata) (digest : Digest) : wp (addDigest filter digest mode)
      (fun result after => result.1.status = .ok → result.2.name = filter.name ∧
        Appends roots mode result.2 (digests ++ [digest]) after) (fun _ => True) world := by
  apply wp_bind
  apply (wp_prepareAdd_appends appends placed).mono _ fun _ _ => trivial
  rintro ⟨prepared, current⟩ middle ⟨failed, named, still, kept⟩
  cases prepared with
  | error reply => exact (wp_pure _).mpr fun succeeded => absurd succeeded (Reply.Failed.error failed).2
  | ok marked =>
    apply wp_bind
    apply (((returns_addStaged current digest mode marked).wp middle).and
      (wp_addStaged_appends kept still digest marked)).mono _ fun _ _ => trivial
    rintro ⟨added, later⟩ after ⟨ended, adds⟩
    cases added with
    | error reply => exact (wp_pure _).mpr fun succeeded => absurd succeeded (Reply.Failed.error ended).2
    | ok done =>
      obtain ⟨same, _, more⟩ := adds rfl
      apply (wp_pure _).mpr
      intro _
      exact ⟨same.trans named, more.retold rfl more.durable rfl rfl rfl⟩

theorem wp_addItems_appends (marked : Bool) (items : List Digest) : ∀ (anyAdded : Bool) (filter : Filter)
    (digests : List Digest) (world : World), Appends roots mode filter digests world → Placed roots filter.metadata →
      wp (addItems mode marked items anyAdded filter)
        (fun result after => EndsFailed result.1 ∧ (result.1 = .ok () → result.2.name = filter.name ∧
          Appends roots mode result.2 (digests ++ items) after)) (fun _ => True) world := by
  induction items with
  | nil =>
    intro anyAdded filter digests world appends placed
    apply (wp_pure _).mpr
    rw [List.append_nil]
    exact ⟨trivial, fun _ => ⟨rfl, appends⟩⟩
  | cons digest rest ih =>
    intro anyAdded filter digests world appends placed
    apply wp_bind
    apply (((returns_addStaged filter digest mode (marked && !anyAdded)).wp world).and
      (wp_addStaged_appends appends placed digest (marked && !anyAdded))).mono _ fun _ _ => trivial
    rintro ⟨added, later⟩ after ⟨ended, adds⟩
    cases added with
    | error reply => exact (wp_pure _).mpr ⟨ended, nofun⟩
    | ok done =>
      obtain ⟨same, still, more⟩ := adds rfl
      apply (ih true later (digests ++ [digest]) after more still).mono _ fun _ _ => trivial
      rintro result last ⟨failed, done⟩
      refine ⟨failed, fun succeeded => ?_⟩
      obtain ⟨named, held⟩ := done succeeded
      rw [List.append_assoc, List.singleton_append] at held
      exact ⟨named.trans same, held⟩

theorem wp_addBatch_appends (appends : Appends roots mode filter digests world) (placed : Placed roots filter.metadata)
    (items : List Digest) : wp (addBatch filter items mode)
      (fun result after => result.1.status = .ok → result.2.name = filter.name ∧
        Appends roots mode result.2 (digests ++ items) after) (fun _ => True) world := by
  apply wp_bind
  apply (wp_prepareAdd_appends appends placed).mono _ fun _ _ => trivial
  rintro ⟨prepared, current⟩ middle ⟨failed, named, still, kept⟩
  cases prepared with
  | error reply => exact (wp_pure _).mpr fun succeeded => absurd succeeded (Reply.Failed.error failed).2
  | ok marked =>
    apply wp_bind
    apply (wp_addItems_appends marked items false current digests middle kept still).mono _ fun _ _ => trivial
    rintro ⟨added, later⟩ after ⟨ended, adds⟩
    cases added with
    | error reply => exact (wp_pure _).mpr fun succeeded => absurd succeeded (Reply.Failed.error ended).2
    | ok done =>
      obtain ⟨same, more⟩ := adds rfl
      apply (wp_pure _).mpr
      intro _
      exact ⟨same.trans named, more.retold rfl more.durable rfl rfl rfl⟩

/-- A sync has work to do for this filter. -/
def Filter.due (filter : Filter) (now : Nat) (force : Bool) : Bool :=
  filter.logDirty && (force || !decide ((now + 2 ^ 64 - filter.lastLogSyncMs) % 2 ^ 64 < logSyncIntervalMs))

theorem syncFilterLog_idle {now : Nat} {force : Bool} (idle : filter.due now force = false) :
    syncFilterLog filter now force = pure filter := by
  unfold Filter.due at idle
  unfold syncFilterLog
  split
  · rfl
  · rename_i dirty
    have dirty : filter.logDirty = true := by simpa using dirty
    rw [dirty, Bool.true_and, Bool.or_eq_false_iff] at idle
    obtain ⟨rfl, early⟩ := idle
    have early : decide ((now + 2 ^ 64 - filter.lastLogSyncMs) % 2 ^ 64 < logSyncIntervalMs) = true := by
      simpa only [Bool.not_eq_false'] using early
    simp only [Bool.not_false, Bool.true_and, early, ↓reduceIte]

/-- A sync that was not due, or that left the log of the filter clean, loses nothing. -/
theorem wp_syncFilterLog_appends (appends : Appends roots mode filter digests world)
    (placed : Placed roots filter.metadata) (now : Nat) (force : Bool) : wp (syncFilterLog filter now force)
      (fun later after => later.name = filter.name ∧ (filter.due now force = false ∨ later.logDirty = false →
        Appends roots mode later digests after)) (fun _ => True) world := by
  by_cases idle : filter.due now force = false
  · rw [syncFilterLog_idle idle]
    exact (wp_pure _).mpr ⟨rfl, fun _ => appends⟩
  · obtain ⟨log, present, aligned, held⟩ := appends.logged
    apply (wp_syncFilterLog placed appends.opened present now force).mono _ fun _ _ => trivial
    intro later after synced
    generalize viewed : after.view roots filter.name = view at synced
    have drained : ∀ flagged : Filter, flagged.name = filter.name → flagged.metadata.hasData = true →
        flagged.logFd = filter.logFd → flagged.logBuf = [] →
        after.logAt (roots.logPathOf filter.name) = some (log.append filter.logBuf).synced →
        Appends roots mode flagged digests after := by
      intro flagged named durable opened empty there
      have bytes : (log.append filter.logBuf).synced.data = log.data ++ filter.logBuf := by simp
      exact {
        durable := durable
        opened := by rw [opened, named, appends.opened]
        whole := by rw [empty]; rfl
        room := by rw [empty]; exact Nat.zero_le _
        drained := fun _ => empty
        emptied := fun _ => empty
        logged := by
          refine ⟨_, named ▸ there, ?_, ?_⟩
          · rw [bytes]
            exact length_append_whole aligned appends.whole
          · rw [bytes, empty, List.append_nil]
            exact held }
    cases synced with
    | idle => exact ⟨rfl, fun _ => appends.left (congrArg View.log viewed)⟩
    | stopped dirty written now =>
      refine ⟨rfl, fun well => absurd (well.resolve_left idle) ?_⟩
      change filter.logDirty ≠ false
      rw [dirty]
      nofun
    | unsynced dirty now =>
      refine ⟨rfl, fun well => absurd (well.resolve_left idle) ?_⟩
      change filter.logDirty ≠ false
      rw [dirty]
      nofun
    | synced dirty now => exact ⟨rfl, fun _ => drained _ rfl appends.durable rfl rfl (congrArg View.log viewed)⟩
    | flagged dirty complete now => exact ⟨rfl, fun _ => drained _ rfl rfl rfl rfl (congrArg View.log viewed)⟩

end Filters

section Handlers

variable {daemon : Daemon} {world : World} {name : Bytes}

theorem wp_withFilter_config (work : Filter → Sys (Reply × Filter)) : wp (withFilter daemon name work)
    (fun result _ => result.2.config = daemon.config) (fun _ => True) world := by
  unfold withFilter
  simp only
  split
  · exact (wp_pure _).mpr rfl
  · split
    · exact (wp_pure _).mpr rfl
    · apply wp_bind
      exact (wp_trivial _).mono (fun _ _ _ => (wp_pure _).mpr rfl) fun _ _ => trivial

theorem wp_installFilter_config (filter : Filter) : wp (installFilter daemon filter)
    (fun result _ => result.2.config = daemon.config) (fun _ => True) world := by
  apply wp_bind
  apply (wp_trivial _).mono _ fun _ _ => trivial
  intro written after _
  cases written with
  | error errno => exact (wp_pure _).mpr rfl
  | ok done =>
    apply wp_bind
    apply (wp_trivial _).mono _ fun _ _ => trivial
    intro added last _
    cases added with
    | ok set => exact (wp_pure _).mpr rfl
    | error errno =>
      apply wp_bind
      apply (wp_trivial _).mono _ fun _ _ => trivial
      intro _ _ _
      apply wp_bind
      apply (wp_trivial _).mono _ fun _ _ => trivial
      intro _ _ _
      apply wp_bind
      exact (wp_trivial _).mono (fun _ _ _ => (wp_pure _).mpr rfl) fun _ _ => trivial

/-- No request changes the configuration. -/
theorem wp_handle_config [Libm] (request : Request) : wp (handle daemon request)
    (fun result _ => result.2.config = daemon.config) (fun _ => True) world := by
  have checked : ∀ (work : Filter → Sys (Reply × Filter)) (target : Bytes) (message : String),
      wp (if !nameIsValid target then pure (.error .badRequest .parse message, daemon)
        else withFilter daemon target work)
        (fun result _ => result.2.config = daemon.config) (fun _ => True) world := by
    intro work target message
    split
    · exact (wp_pure _).mpr rfl
    · exact wp_withFilter_config work
  cases request with
  | add target payload => exact checked _ target _
  | check target payload => exact checked _ target _
  | madd target payloads => exact checked _ target _
  | mcheck target payloads => exact checked _ target _
  | create fields =>
    change wp (handleCreate daemon fields) _ _ world
    unfold handleCreate
    split
    · exact (wp_pure _).mpr rfl
    split
    · exact (wp_pure _).mpr rfl
    simp only
    split
    · exact (wp_pure _).mpr rfl
    split
    · exact (wp_pure _).mpr rfl
    rename_i metadata _
    have pooled : ∀ daemon : Daemon,
        (takeEmptyMap daemon metadata.capacity metadata.hashes metadata.valueSize).2.config = daemon.config := by
      intro daemon
      unfold takeEmptyMap
      split
      · split <;> rfl
      · rfl
    split
    · apply (wp_installFilter_config _).mono _ fun _ _ => trivial
      exact fun _ _ same => same.trans (pooled _)
    · apply wp_bind
      apply (wp_trivial _).mono _ fun _ _ => trivial
      intro made after _
      cases made with
      | error failure =>
        simp only
        split
        · exact (wp_pure _).mpr (pooled _)
        · exact (wp_pure _).mpr (pooled _)
      | ok map =>
        apply (wp_installFilter_config _).mono _ fun _ _ => trivial
        exact fun _ _ same => same.trans (pooled _)
  | drop target =>
    change wp (handleDrop daemon target) _ _ world
    unfold handleDrop
    split
    · exact (wp_pure _).mpr rfl
    · simp only
      split
      · exact (wp_pure _).mpr rfl
      · split
        · exact (wp_pure _).mpr rfl
        · apply wp_bind
          apply (wp_trivial _).mono _ fun _ _ => trivial
          intro dropped after _
          cases dropped with
          | error reply => exact (wp_pure _).mpr rfl
          | ok done =>
            apply wp_bind
            exact (wp_trivial _).mono (fun _ _ _ => (wp_pure _).mpr rfl) fun _ _ => trivial

end Handlers

/-- One request or sync that goes well for the filter of this name; the list holds the
digests that it adds to the filter. -/
inductive SmoothStep [Libm] (name : Bytes) (daemon : Daemon) (world : World) :
    List Digest → Daemon → World → Prop where
  | added (run : handle daemon (.add name payload) world answers = .returned (reply, later) after rest)
      (accepted : reply.status = .ok) : SmoothStep name daemon world [digestPayload payload] later after
  | batched (run : handle daemon (.madd name payloads) world answers = .returned (reply, later) after rest)
      (accepted : reply.status = .ok) : SmoothStep name daemon world (payloads.map digestPayload) later after
  | checked (run : handle daemon (.check name payload) world answers = .returned (reply, later) after rest) :
      SmoothStep name daemon world [] later after
  | batchChecked (run : handle daemon (.mcheck name payloads) world answers = .returned (reply, later) after rest) :
      SmoothStep name daemon world [] later after
  | other (request : Request) (different : request.target ≠ name)
      (run : handle daemon request world answers = .returned (reply, later) after rest) :
      SmoothStep name daemon world [] later after
  | synced {set : FilterSet} (run : syncDirtyLogs daemon.set now force world answers = .returned set after rest)
      (well : ∀ filter ∈ daemon.set.items, filter.name = name → filter.due now force = true →
        ∀ changed ∈ set.items, changed.name = name → changed.logDirty = false) :
      SmoothStep name daemon world [] { daemon with set } after

/-- Any number of such steps -/
inductive SmoothRun [Libm] (name : Bytes) : Daemon → World → List Digest → Daemon → World → Prop where
  | nil {daemon : Daemon} {world : World} : SmoothRun name daemon world [] daemon world
  | cons (step : SmoothStep name daemon world first middle between)
      (run : SmoothRun name middle between rest later after) : SmoothRun name daemon world (first ++ rest) later after

section Session

variable {roots : Config} {mode : LogSyncMode} {name : Bytes} {daemon later : Daemon} {world after : World}
  {filter : Filter} {digests more : List Digest}

theorem keepsApart_syncFilters (now : Nat) (force : Bool) (items : List Filter)
    (seated : ∀ filter ∈ items, Seated roots filter) (others : ∀ filter ∈ items, name ≠ filter.name) :
    Keeps (Apart name) (syncFilters now force items) fun _ => True := by
  induction items with
  | nil => exact .pure trivial
  | cons filter rest ih =>
    have turn : StaysWithin filter.name (syncFilterLog filter now force) fun later => Follows roots filter later :=
      keeps_syncFilterLog (seated filter List.mem_cons_self) now force
    refine .bind (turn.apart (others filter List.mem_cons_self)) fun later _ => ?_
    refine .bind (ih (fun other member => seated other (List.mem_cons_of_mem _ member))
      fun other member => others other (List.mem_cons_of_mem _ member)) fun _ _ => ?_
    exact .pure trivial

/-- The sync of all filters does for one of them what its own turn does. -/
theorem wp_syncFilters_appends (now : Nat) (force : Bool) (items : List Filter) : ∀ world : World,
    (∀ filter ∈ items, Seated roots filter) → (items.map Filter.name).Nodup → filter ∈ items →
      Appends roots mode filter digests world →
      wp (syncFilters now force items) (fun later after => ∃ changed ∈ later, changed.name = filter.name ∧
        (filter.due now force = false ∨ changed.logDirty = false → Appends roots mode changed digests after))
        (fun _ => True) world := by
  induction items with
  | nil =>
    intro _ _ _ member
    exact absurd member List.not_mem_nil
  | cons head rest ih =>
    intro world seated unique member appends
    have seatedRest : ∀ other ∈ rest, Seated roots other :=
      fun other inside => seated other (List.mem_cons_of_mem _ inside)
    rw [List.map_cons, List.nodup_cons] at unique
    have different : ∀ other ∈ rest, head.name ≠ other.name :=
      fun other inside same => unique.1 (List.mem_map.mpr ⟨other, inside, same.symm⟩)
    apply wp_bind
    rcases List.mem_cons.mp member with rfl | inside
    · have placed := (seated filter List.mem_cons_self).placed
      apply (wp_syncFilterLog_appends appends placed now force).mono _ fun _ _ => trivial
      rintro changed middle ⟨named, well⟩
      apply wp_bind
      apply (keepsApart_syncFilters now force rest seatedRest different middle).mono _ fun _ _ => trivial
      rintro others last ⟨_, apart⟩
      apply (wp_pure _).mpr
      refine ⟨changed, List.mem_cons_self, named, fun went => (well went).left ?_⟩
      rw [named]
      exact apart.logAt placed.valid roots
    · have turn : StaysWithin head.name (syncFilterLog head now force) fun later => Follows roots head later :=
        keeps_syncFilterLog (seated head List.mem_cons_self) now force
      apply ((turn.apart (Ne.symm (different filter inside))) world).mono _ fun _ _ => trivial
      rintro changed middle ⟨_, apart⟩
      apply wp_bind
      have placed := (seatedRest filter inside).placed
      apply (ih middle seatedRest unique.2 inside (appends.apart placed apart)).mono _ fun _ _ => trivial
      rintro others last ⟨own, within, held⟩
      exact (wp_pure _).mpr ⟨own, List.mem_cons_of_mem _ within, held⟩

/-- A running daemon with a filter of this name whose log holds the digests -/
structure Holds (roots : Config) (mode : LogSyncMode) (name : Bytes) (digests : List Digest) (daemon : Daemon)
    (world : World) : Prop where
  place : InPlace roots daemon world
  syncs : daemon.config.logSyncMode = mode
  served : ∃ filter ∈ daemon.set.items, filter.name = name ∧ Appends roots mode filter digests world

/-- Work on a filter that the set holds -/
theorem wp_withFilter_member {work : Filter → Sys (Reply × Filter)} {post : Reply × Filter → World → Prop}
    (place : InPlace roots daemon world) (member : filter ∈ daemon.set.items)
    (works : wp (work filter) post (fun _ => True) world) :
    wp (withFilter daemon filter.name work)
      (fun result after => ∃ changed ∈ result.2.set.items, post (result.1, changed) after) (fun _ => True) world := by
  obtain ⟨added, serving⟩ := place
  obtain ⟨index, located, found⟩ := findN_member serving.tended.unique serving.named member
  unfold withFilter
  simp only [located, FilterSet.findN_items, found]
  apply wp_bind
  apply works.mono _ fun _ _ => trivial
  intro result last held
  apply (wp_pure _).mpr
  exact ⟨result.2, List.mem_set (List.getElem?_eq_some_iff.mp found).1 _, held⟩

/-- What every request keeps of a running daemon -/
theorem holds_of_handle [Libm] {request : Request} {reply : Reply} {answers rest : List Answer} {digests : List Digest}
    (place : InPlace roots daemon world)
    (run : handle daemon request world answers = .returned (reply, later) after rest)
    (served : ∃ filter ∈ later.set.items, filter.name = name ∧
      Appends roots daemon.config.logSyncMode filter digests after) :
    Holds roots daemon.config.logSyncMode name digests later after := by
  obtain ⟨added, serving⟩ := place
  have still := (@wp_handle _ _ daemon added world [] _ request serving (by cases request <;> trivial)).returned run
  have config : later.config = daemon.config := (wp_handle_config request).returned run
  exact ⟨⟨_, still⟩, congrArg Config.logSyncMode config, served⟩

/-- What one step preserves -/
theorem SmoothStep.holds [Libm] (step : SmoothStep name daemon world more later after)
    (holds : Holds roots mode name digests daemon world) : Holds roots mode name (digests ++ more) later after := by
  obtain ⟨place, rfl, filter, member, rfl, appends⟩ := holds
  have placed : Placed roots filter.metadata := by
    obtain ⟨added, serving⟩ := place
    exact (serving.tended.settled filter member).seated.placed
  cases step with
  | added run accepted =>
    apply holds_of_handle place run
    rw [handle, handleAddCheck, if_neg (by rw [placed.valid]; decide)] at run
    simp only [↓reduceIte] at run
    have works := wp_addDigest_appends appends placed
    obtain ⟨changed, inside, held⟩ := (wp_withFilter_member place member (works _)).returned run
    obtain ⟨named, held⟩ := held accepted
    exact ⟨changed, inside, named, held⟩
  | batched run accepted =>
    apply holds_of_handle place run
    rw [handle, handleBatch, if_neg (by rw [placed.valid]; decide)] at run
    simp only [↓reduceIte] at run
    have works := wp_addBatch_appends appends placed
    obtain ⟨changed, inside, held⟩ := (wp_withFilter_member place member (works _)).returned run
    obtain ⟨named, held⟩ := held accepted
    exact ⟨changed, inside, named, held⟩
  | checked run =>
    apply holds_of_handle place run
    rename_i payload answers reply rest
    rw [handle, handleAddCheck, if_neg (by rw [placed.valid]; decide)] at run
    simp only [Bool.false_eq_true, ↓reduceIte] at run
    have works := (wp_checkDigest filter (digestPayload payload) world).mono (fun _ _ held => held) fun _ _ => trivial
    obtain ⟨changed, inside, rfl, checks, same⟩ := (wp_withFilter_member place member works).returned run
    dsimp only at same
    subst same
    rw [List.append_nil]
    exact ⟨_, inside, rfl, appends.retold rfl appends.durable rfl rfl rfl⟩
  | batchChecked run =>
    apply holds_of_handle place run
    rename_i payloads answers reply rest
    rw [handle, handleBatch, if_neg (by rw [placed.valid]; decide)] at run
    simp only [Bool.false_eq_true, ↓reduceIte] at run
    have works := (wp_checkBatch filter (payloads.map digestPayload) world).mono (fun _ _ held => held)
      fun _ _ => trivial
    obtain ⟨changed, inside, rfl, checks, same⟩ := (wp_withFilter_member place member works).returned run
    dsimp only at same
    subst same
    rw [List.append_nil]
    exact ⟨_, inside, rfl, appends.retold rfl appends.durable rfl rfl rfl⟩
  | other request different run =>
    apply holds_of_handle place run
    obtain ⟨added, serving⟩ := place
    obtain ⟨within, handling⟩ := (wp_handle_handled serving request).returned run
    rw [List.append_nil]
    exact ⟨filter, handling.member member (Ne.symm different), rfl,
      appends.apart placed (within.apart (Ne.symm different))⟩
  | synced run well =>
    rename_i now force answers set rest
    obtain ⟨added, serving⟩ := place
    have still := (wp_syncDirtyLogs serving (fun _ _ _ => trivial) now force).returned run
    have seated : ∀ other ∈ daemon.set.items, Seated roots other :=
      fun other inside => (serving.tended.settled other inside).seated
    have syncs : wp (syncDirtyLogs daemon.set now force) (fun set last => ∃ changed ∈ set.items,
        changed.name = filter.name ∧ (filter.due now force = false ∨ changed.logDirty = false →
          Appends roots daemon.config.logSyncMode changed digests last)) (fun _ => True) world := by
      apply wp_bind
      apply
        (wp_syncFilters_appends now force daemon.set.items world seated serving.tended.unique member appends).mono _
        fun _ _ => trivial
      exact fun items last held => (wp_pure _).mpr held
    obtain ⟨changed, inside, named, held⟩ := syncs.returned run
    refine ⟨⟨added, still⟩, rfl, changed, inside, named, ?_⟩
    rw [List.append_nil]
    apply held
    cases due : filter.due now force with
    | false => exact Or.inl rfl
    | true => exact Or.inr (well filter member rfl due changed inside named)

theorem SmoothStep.once [Libm] (step : SmoothStep name daemon world more later after) :
    SmoothRun name daemon world more later after := by
  rw [← List.append_nil more]
  exact .cons step .nil

/-- What a run preserves -/
theorem SmoothRun.holds [Libm] (run : SmoothRun name daemon world more later after)
    (holds : Holds roots mode name digests daemon world) : Holds roots mode name (digests ++ more) later after := by
  induction run generalizing digests with
  | nil =>
    rw [List.append_nil]
    exact holds
  | cons step run ih =>
    rw [← List.append_assoc]
    exact ih (step.holds holds)

/-- A filter that was loaded with its pin and a log of whole records -/
theorem loaded_appends {env : Env} {record : MetaRecord} {map : Nat} (accepted : Accepted roots name record world)
    (durable : record.hasData = true) (pin : world.pinAt record.pinPath = some map)
    (whole : (world.logBytes (roots.logPathOf name)).length % digestSize = 0)
    (readable : env.reads (roots.metaPathOf name) = .ok) :
    Turn env roots mode name (Apart name world)
      (fun filters last => ∃ filter ∈ filters, filter.name = name ∧ Appends roots mode filter [] last)
        (fun _ => True) where
  valid := accepted.valid
  fits := accepted.fits
  before_apart apart held := IsTrans.trans _ _ _ held apart
  after_apart apart held := by
    obtain ⟨filter, member, named, appends⟩ := held
    refine ⟨filter, member, named, appends.left ?_⟩
    rw [named]
    exact apart.logAt accepted.valid roots
  crash_apart _ _ := trivial
  crash_changeLog _ _ _ := trivial
  begins _ := trivial
  ends _ := trivial
  turn {loading last} apart missing valids := by
    have still := accepted.of_file (apart.fileAt accepted.valid roots)
    have there := (apart.pinAt accepted.leaf).trans pin
    apply (wp_loadRecord_pinned still readable there missing valids).mono _ fun _ _ => trivial
    rintro result final ⟨_, done⟩
    refine ⟨trivial, fun succeeded => ?_⟩
    obtain ⟨_, rfl, now, items⟩ := done succeeded
    have own : roots.loaded name record map now ∈ result.2.set.items := by
      rw [items]
      exact List.mem_append_right _ (List.mem_singleton_self _)
    have named : (roots.loaded name record map now).name = name := accepted.named
    refine ⟨_, FilterSet.mem_named.mpr ⟨own, named⟩, named, ?_⟩
    exact {
      durable := durable
      opened := by
        rw [named]
        exact if_pos durable
      whole := rfl
      room := Nat.zero_le _
      drained := fun _ => rfl
      emptied := fun _ => rfl
      logged := by
        refine ⟨(last.logAt (roots.logPathOf name)).getD .empty, ?_, ?_, List.nil_sublist _⟩
        · rw [named, World.opened, if_pos durable, logAt_openLog]
        · rw [apart.logAt accepted.valid roots]
          unfold World.logBytes at whole
          cases present : world.logAt (roots.logPathOf name) with
          | none => rfl
          | some log =>
            rw [present] at whole
            exact whole }

/-- A filter whose log holds whole records when the daemon starts: whatever is added to it
in that session is found by a replay, in `always` mode at once and in any mode after the
next sync that succeeds. -/
theorem whole_log_replays [Libm] {env : Env} {record : MetaRecord} {map : Nat} {answers rest : List Answer}
    {loaded : World} (accepted : Accepted roots name record world)
    (durable : record.hasData = true) (pin : world.pinAt record.pinPath = some map)
    (whole : (world.logBytes (roots.logPathOf name)).length % digestSize = 0)
    (started : startup env roots world answers = .returned (.ok daemon) loaded rest)
    (served : ∃ filter ∈ daemon.set.items, filter.name = name)
    (run : SmoothRun name daemon loaded digests later after) :
    (roots.logSyncMode = .always → LogSession.Replays (roots.logPathOf name) digests after) ∧
    ∀ now force answers set final rest, syncDirtyLogs later.set now force after answers = .returned set final rest →
      (∀ filter ∈ set.items, filter.name = name → filter.logDirty = false) →
      LogSession.Replays (roots.logPathOf name) digests final := by
  obtain ⟨filter, member, named⟩ := served
  obtain ⟨readable, _⟩ : Loadable env roots world name := by
    rw [← named]
    exact wp_startup_loadable.returned started daemon rfl filter member
  have turn := @loaded_appends roots roots.logSyncMode name world env record map accepted durable pin whole readable
  have listed : metaLeaf name ∈ env.metaListing roots world :=
    listed_of_served started (List.ne_nil_of_mem (FilterSet.mem_named.mpr ⟨member, named⟩))
  have starts := turn.wp_startup listed (refl world) fun _ held => by
    obtain ⟨_, member, _⟩ := held
    exact absurd member List.not_mem_nil
  obtain ⟨config, _, filter, member, named, appends⟩ := (starts.returned started).2 daemon rfl
  have start : Holds roots roots.logSyncMode name [] daemon loaded :=
    ⟨(startup_inPlace started).1, congrArg Config.logSyncMode config, filter, (FilterSet.mem_named.mp member).1, named,
      appends⟩
  have holds := run.holds start
  rw [List.nil_append] at holds
  constructor
  · intro always
    obtain ⟨_, _, last, _, rfl, held⟩ := holds
    exact held.replays (held.emptied always)
  · intro now force answers set final rest synced well
    have step : SmoothStep name later after [] { later with set } final :=
      .synced synced fun _ _ _ _ changed inside same => well changed inside same
    obtain ⟨_, _, last, inside, rfl, held⟩ := step.holds holds
    rw [List.append_nil] at held
    exact held.replays (held.drained (well last inside rfl))

end Session

/-- A filter with the digest of `a`, and a daemon that crashed in the log write of `b` -/
def tearing (written : List Answer) : List Action :=
  [.restart .plain demoRoots 7 plenty, .request demoCreate plenty, .request (.add demoName (bytes "a")) plenty,
    .request (.add demoName (bytes "b")) (.ok :: written)]

def tornWorld (written : List Answer) : World := (@State.run exactLibm .initial (tearing written)).world

/-- A startup on this world and an ADD of `c`: the status of the answer and the log -/
def addAfterTear (written : List Answer) : Option (Status × Bytes) :=
  match startup .plain demoRoots (tornWorld written) plenty with
  | .returned (.ok daemon) loaded _ =>
    match @handle exactLibm daemon (.add demoName (bytes "c")) loaded plenty with
    | .returned (reply, _) after _ => some (reply.status, after.logBytes (demoRoots.logPathOf demoName))
    | .crashed _ => none
  | _ => none

theorem addAfterTear_some {written : List Answer} {status : Status} {log : Bytes}
    (added : addAfterTear written = some (status, log)) : ∃ daemon loaded rest reply later after unused,
      startup .plain demoRoots (tornWorld written) plenty = .returned (.ok daemon) loaded rest ∧
      @handle exactLibm daemon (.add demoName (bytes "c")) loaded plenty = .returned (reply, later) after unused ∧
      reply.status = status ∧ after.logBytes (demoRoots.logPathOf demoName) = log := by
  unfold addAfterTear at added
  cases started : startup .plain demoRoots (tornWorld written) plenty with
  | crashed stopped =>
    rw [started] at added
    cases added
  | returned result loaded rest =>
    rw [started] at added
    cases result with
    | error failure => cases added
    | ok daemon =>
      simp only at added
      cases run : @handle exactLibm daemon (.add demoName (bytes "c")) loaded plenty with
      | crashed stopped =>
        rw [run] at added
        cases added
      | returned answer after unused =>
        rw [run] at added
        simp only [Option.some.injEq, Prod.mk.injEq] at added
        exact ⟨daemon, loaded, rest, answer.1, answer.2, after, unused, rfl, run, added⟩

theorem accepted_tornWorld {written : List Answer}
    (stored : (tornWorld written).fileAt (demoRoots.metaPathOf demoName) = some (some (unpinnedRecord true))) :
    Accepted demoRoots demoName (unpinnedRecord true) (tornWorld written) :=
  ⟨by decide, by decide, ⟨unpinnedRecord true, stored, by decide⟩, rfl, by decide, by decide⟩

/-- Five bytes of `b` are in the log when the daemon starts again, with the clean flag
set and the pin in place. The digest of `c` follows them, and no replay finds it. -/
theorem torn_log_hides_digest : ∃ map daemon loaded rest later after,
    Accepted demoRoots demoName (unpinnedRecord true) (tornWorld [.count 5]) ∧
    (unpinnedRecord true).hasData = true ∧ (unpinnedRecord true).logClean = true ∧
    (tornWorld [.count 5]).pinAt (unpinnedRecord true).pinPath = some map ∧
    startup .plain demoRoots (tornWorld [.count 5]) plenty = .returned (.ok daemon) loaded rest ∧
    @SmoothRun exactLibm demoName daemon loaded [digestPayload (bytes "c")] later after ∧
    demoRoots.logSyncMode = .always ∧
    ¬ LogSession.Replays (demoRoots.logPathOf demoName) [digestPayload (bytes "c")] after := by
  have pinned : ((tornWorld [.count 5]).pinAt (unpinnedRecord true).pinPath).isSome = true := by decide +kernel
  obtain ⟨map, pin⟩ := Option.isSome_iff_exists.mp pinned
  have added : addAfterTear [.count 5] = some (.ok, (digestPayload (bytes "a")).val ++
      (digestPayload (bytes "b")).val.take 5 ++ (digestPayload (bytes "c")).val) := by decide +kernel
  obtain ⟨daemon, loaded, rest, reply, later, after, unused, started, run, status, log⟩ := addAfterTear_some added
  have smooth : @SmoothRun exactLibm demoName daemon loaded [digestPayload (bytes "c")] later after := by
    let _ := exactLibm
    exact (SmoothStep.added run status).once
  refine ⟨map, daemon, loaded, rest, later, after, accepted_tornWorld (by decide +kernel), rfl, rfl, pin, started,
    smooth, rfl, fun replays => ?_⟩
  cases present : after.logAt (demoRoots.logPathOf demoName) with
  | none =>
    rw [World.logBytes, present] at log
    exact absurd (congrArg List.length log) (by decide +kernel)
  | some file =>
    rw [LogSession.replays_iff present, ← World.logBytes_of present, log] at replays
    revert replays
    decide +kernel

/-- The daemon crashed before it wrote any of `b`: the log ends with a whole record. -/
theorem whole_log_replays_untorn : ∃ daemon loaded rest later after,
    startup .plain demoRoots (tornWorld []) plenty = .returned (.ok daemon) loaded rest ∧
    @SmoothRun exactLibm demoName daemon loaded [digestPayload (bytes "c")] later after ∧
    LogSession.Replays (demoRoots.logPathOf demoName) [digestPayload (bytes "c")] after := by
  have pinned : ((tornWorld []).pinAt (unpinnedRecord true).pinPath).isSome = true := by decide +kernel
  obtain ⟨map, pin⟩ := Option.isSome_iff_exists.mp pinned
  have added : addAfterTear [] = some (.ok, (digestPayload (bytes "a")).val ++ (digestPayload (bytes "c")).val) := by
    decide +kernel
  obtain ⟨daemon, loaded, rest, reply, later, after, unused, started, run, status, -⟩ := addAfterTear_some added
  have smooth : @SmoothRun exactLibm demoName daemon loaded [digestPayload (bytes "c")] later after := by
    let _ := exactLibm
    exact (SmoothStep.added run status).once
  have named : ((startup .plain demoRoots (tornWorld []) plenty).value.map fun result =>
      result.toOption.map fun daemon => daemon.set.items.map Filter.name) = some (some [demoName]) := by decide +kernel
  rw [started] at named
  have names : daemon.set.items.map Filter.name = [demoName] := Option.some.inj (Option.some.inj named)
  have served : ∃ filter ∈ daemon.set.items, filter.name = demoName := by
    apply List.mem_map.mp
    rw [names]
    exact List.mem_singleton_self _
  exact ⟨daemon, loaded, rest, later, after, started, smooth,
    (@whole_log_replays demoRoots demoName daemon later (tornWorld []) after
      [digestPayload (bytes "c")] exactLibm .plain
      (unpinnedRecord true) map plenty rest loaded (accepted_tornWorld (by decide +kernel)) rfl pin
      (by decide +kernel) started served smooth).1 rfl⟩

end Bloomd
