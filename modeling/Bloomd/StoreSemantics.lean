import Bloomd.Store
import Bloomd.FilterView
import Bloomd.ServerCounters

/-! The daemon serves its filters as a store: what a request is answered, and what the
maps hold after it, is what the store allows, whatever the system calls meet. -/

namespace Bloomd

open CrashLogic Prog

/-- The filters of a daemon with what their maps hold -/
def Daemon.store (daemon : Daemon) (world : World) : Store := fun name =>
  (daemon.set.items.find? fun filter => filter.name = name).map fun filter =>
    {digest | digest ∈ world.contents filter.mapFd}

/-- Between the two worlds one map took in these digests and no other took in any. -/
structure Puts (map : Nat) (digests : List Digest) (before after : World) : Prop where
  count : before.maps.length ≤ after.maps.length
  own : after.contents map = before.contents map ++ digests
  others : ∀ other, other ≠ map → after.contents other = before.contents other

section Views

variable {daemon later : Daemon} {world after : World} {name : Bytes} {held : Set Digest} {filter changed : Filter}
  {index : Nat} {digests : List Digest}

theorem Store.put_nil {store : Store} (present : store name = some held) : store.put name held [] = store := by
  have empty : {digest : Digest | digest ∈ ([] : List Digest)} = ∅ := by
    ext digest
    simp
  rw [Store.put, empty, Set.union_empty, ← present, Function.update_eq_self]

theorem Daemon.store_eq_some (unique : (daemon.set.items.map Filter.name).Nodup) :
    daemon.store world name = some held ↔
      ∃ filter ∈ daemon.set.items, filter.name = name ∧ {digest | digest ∈ world.contents filter.mapFd} = held := by
  rw [Daemon.store, Option.map_eq_some_iff]
  constructor
  · rintro ⟨filter, found, same⟩
    have named := List.find?_some found
    simp only [decide_eq_true_eq] at named
    exact ⟨filter, List.mem_of_find?_eq_some found, named, same⟩
  · rintro ⟨filter, member, rfl, same⟩
    refine ⟨filter, ?_, same⟩
    cases found : daemon.set.items.find? fun other => other.name = filter.name with
    | none =>
      have absent := List.find?_eq_none.mp found filter member
      simp at absent
    | some other =>
      have named := List.find?_some found
      simp only [decide_eq_true_eq] at named
      rw [List.inj_on_of_nodup_map unique (List.mem_of_find?_eq_some found) member named]

theorem Daemon.store_eq_none : daemon.store world name = none ↔ ∀ filter ∈ daemon.set.items, filter.name ≠ name := by
  simp [Daemon.store]

theorem Daemon.store_found (unique : (daemon.set.items.map Filter.name).Nodup)
    (found : daemon.set.items[index]? = some filter) :
    daemon.store world filter.name = some {digest | digest ∈ world.contents filter.mapFd} :=
  (Daemon.store_eq_some unique).mpr ⟨filter, List.mem_of_getElem? found, rfl, rfl⟩

/-- Filters that keep their names and maps are the same to the clients while the maps take
in nothing. -/
theorem Daemon.store_follow {roots : Config} (follow : List.Forall₂ (Follows roots) daemon.set.items later.set.items)
    (contents : ∀ filter ∈ daemon.set.items, after.contents filter.mapFd = world.contents filter.mapFd) :
    later.store after = daemon.store world := by
  funext name
  unfold Daemon.store
  generalize daemon.set.items = items at follow contents
  generalize later.set.items = others at follow
  induction follow with
  | nil => rfl
  | @cons filter other items others head tail ih =>
    have rest := ih fun filter member => contents filter (List.mem_cons_of_mem _ member)
    by_cases here : filter.name = name
    · have same : other.name = name := head.name.trans here
      rw [List.find?_cons_of_pos (by simpa using same), List.find?_cons_of_pos (by simpa using here), Option.map_some,
        Option.map_some, head.mapFd, contents filter List.mem_cons_self]
    · have different : other.name ≠ name := fun same => here (head.name.symm.trans same)
      rw [List.find?_cons_of_neg (by simpa using different), List.find?_cons_of_neg (by simpa using here)]
      exact rest

/-- One filter took in some digests. -/
theorem Daemon.store_worked (unique : (daemon.set.items.map Filter.name).Nodup)
    (distinct : (daemon.set.items.map Filter.mapFd).Nodup) (found : daemon.set.items[index]? = some filter)
    (named : changed.name = filter.name) (mapped : changed.mapFd = filter.mapFd)
    (items : later.set.items = daemon.set.items.set index changed) (puts : Puts filter.mapFd digests world after) :
    later.store after = (daemon.store world).put filter.name
      {digest | digest ∈ world.contents filter.mapFd} digests := by
  have member := List.mem_of_getElem? found
  have unique' : (later.set.items.map Filter.name).Nodup := by
    rw [items, map_set_same Filter.name found named]
    exact unique
  funext name
  apply Option.ext
  intro held
  rw [Daemon.store_eq_some unique', items]
  by_cases own : name = filter.name
  · subst own
    have grown : {digest | digest ∈ after.contents changed.mapFd} =
        {digest | digest ∈ world.contents filter.mapFd} ∪ {digest | digest ∈ digests} := by
      ext digest
      simp [mapped, puts.own]
    rw [Store.put, Function.update_self, Option.some.injEq, ← grown]
    constructor
    · rintro ⟨other, known, same, rfl⟩
      rcases mem_set_cases unique found known with rfl | ⟨_, different⟩
      · rfl
      · exact absurd same different
    · rintro rfl
      exact ⟨changed, List.mem_set (List.getElem?_eq_some_iff.mp found).1 changed, named, rfl⟩
  · rw [Store.put, Function.update_of_ne own, Daemon.store_eq_some unique]
    have apart : ∀ other ∈ daemon.set.items, other.name = name →
        after.contents other.mapFd = world.contents other.mapFd := by
      intro other known same
      apply puts.others
      intro shared
      exact own (same ▸ congrArg Filter.name (List.inj_on_of_nodup_map distinct known member shared))
    constructor
    · rintro ⟨other, known, same, rfl⟩
      rcases mem_set_cases unique found known with rfl | ⟨old, _⟩
      · exact absurd (same.symm.trans named) own
      · exact ⟨other, old, same, by rw [apart other old same]⟩
    · rintro ⟨other, old, same, rfl⟩
      obtain ⟨position, there⟩ := List.mem_iff_getElem?.mp old
      refine ⟨other, ?_, same, by rw [apart other old same]⟩
      apply List.mem_iff_getElem?.mpr
      refine ⟨position, ?_⟩
      rw [List.getElem?_set_ne, there]
      rintro rfl
      rw [found] at there
      exact own (same ▸ congrArg Filter.name (Option.some.inj there).symm)

/-- A filter with an empty map was added. -/
theorem Daemon.store_created (unique : (daemon.set.items.map Filter.name).Nodup)
    (missing : ∀ other ∈ daemon.set.items, other.name ≠ filter.name)
    (items : later.set.items = daemon.set.items ++ [filter])
    (empty : after.contents filter.mapFd = []) (feeds : Feeds nothing world after) :
    later.store after = Function.update (daemon.store world) filter.name (some ∅) := by
  have unique' : (later.set.items.map Filter.name).Nodup := by
    rw [items, List.map_append]
    apply unique.append (List.nodup_singleton _)
    intro name known own
    obtain ⟨other, member, rfl⟩ := List.mem_map.mp known
    exact missing other member (List.mem_singleton.mp own)
  have unfilled : {digest | digest ∈ after.contents filter.mapFd} = ∅ := by
    ext digest
    simp [empty]
  funext name
  apply Option.ext
  intro held
  rw [Daemon.store_eq_some unique', items]
  by_cases own : name = filter.name
  · subst own
    rw [Function.update_self, Option.some.injEq, ← unfilled]
    constructor
    · rintro ⟨other, known, same, rfl⟩
      rcases List.mem_append.mp known with old | new
      · exact absurd same (missing other old)
      · rw [List.mem_singleton.mp new]
    · rintro rfl
      exact ⟨filter, List.mem_append_right _ (List.mem_singleton_self _), rfl, rfl⟩
  · rw [Function.update_of_ne own, Daemon.store_eq_some unique]
    constructor
    · rintro ⟨other, known, same, rfl⟩
      rcases List.mem_append.mp known with old | new
      · exact ⟨other, old, same, by rw [feeds.kept]⟩
      · rw [List.mem_singleton.mp new] at same
        exact absurd same.symm own
    · rintro ⟨other, old, same, rfl⟩
      exact ⟨other, List.mem_append_left _ old, same, by rw [feeds.kept]⟩

/-- A filter was removed. -/
theorem Daemon.store_dropped (unique : (daemon.set.items.map Filter.name).Nodup)
    (found : daemon.set.items[index]? = some filter) (items : later.set.items = daemon.set.items.eraseIdx index)
    (feeds : Feeds nothing world after) :
    later.store after = Function.update (daemon.store world) filter.name none := by
  have unique' : (later.set.items.map Filter.name).Nodup := by
    rw [items]
    exact unique.sublist ((List.eraseIdx_sublist _ _).map _)
  funext name
  apply Option.ext
  intro held
  rw [Daemon.store_eq_some unique', items]
  by_cases own : name = filter.name
  · subst own
    rw [Function.update_self]
    constructor
    · rintro ⟨other, known, same, rfl⟩
      obtain ⟨position, apart, there⟩ := List.mem_eraseIdx_iff_getElem?.mp known
      exact absurd (index_of_name unique there found same) apart
    · intro impossible
      cases impossible
  · rw [Function.update_of_ne own, Daemon.store_eq_some unique]
    constructor
    · rintro ⟨other, known, same, rfl⟩
      exact ⟨other, List.mem_of_mem_eraseIdx known, same, by rw [feeds.kept]⟩
    · rintro ⟨other, old, same, rfl⟩
      refine ⟨other, ?_, same, by rw [feeds.kept]⟩
      obtain ⟨position, there⟩ := List.mem_iff_getElem?.mp old
      apply List.mem_eraseIdx_iff_getElem?.mpr
      refine ⟨position, ?_, there⟩
      rintro rfl
      rw [found] at there
      exact own (same ▸ congrArg Filter.name (Option.some.inj there).symm)

end Views

namespace Puts

variable {map : Nat} {digests more : List Digest} {before middle after world : World}

theorem of_feeds (feeds : Feeds nothing before after) : Puts map [] before after :=
  ⟨feeds.count, by rw [feeds.kept, List.append_nil], fun other _ => feeds.kept other⟩

theorem trans (first : Puts map digests before middle) (second : Puts map more middle after) :
    Puts map (digests ++ more) before after :=
  ⟨first.count.trans second.count, by rw [second.own, first.own, List.append_assoc],
    fun other different => (second.others other different).trans (first.others other different)⟩

theorem addDigest (bound : map < world.maps.length) (digest : Digest) :
    Puts map [digest] world (world.addDigest map digest) := by
  refine ⟨by simp, world.contents_addDigest_same bound digest, ?_⟩
  intro other different
  simp [World.contents, Ne.symm different]

end Puts

/-- How work that puts digests into the map of a filter comes out -/
inductive Fills (roots : Config) (filter : Filter) (digests : List Digest) (before : World) :
    Except Reply Unit × Filter → World → Prop where
  | done {later : Filter} {after : World} (follows : Follows roots filter later)
      (puts : Puts filter.mapFd digests before after) : Fills roots filter digests before (.ok (), later) after
  | failed {reply : Reply} {later : Filter} {front : List Digest} {after : World}
      (follows : Follows roots filter later) (first : front <+: digests) (cut : front.length < digests.length)
      (puts : Puts filter.mapFd front before after) (trouble : reply.status = .io ∨ reply.status = .bpf) :
      Fills roots filter digests before (.error reply, later) after

/-- How an ADD or MADD comes out that reports success with `body` -/
inductive Takes (roots : Config) (filter : Filter) (digests : List Digest) (body : Bytes) (before : World) :
    Reply × Filter → World → Prop where
  | done {later : Filter} {after : World} (follows : Follows roots filter later)
      (puts : Puts filter.mapFd digests before after) : Takes roots filter digests body before (.ok body, later) after
  | failed {reply : Reply} {later : Filter} {front : List Digest} {after : World}
      (follows : Follows roots filter later)
      (first : front <+: digests) (cut : front = [] ∨ front.length < digests.length)
      (puts : Puts filter.mapFd front before after) (trouble : reply.status = .io ∨ reply.status = .bpf) :
      Takes roots filter digests body before (reply, later) after

section Adding

variable {roots : Config} {filter : Filter} {world : World}

theorem wp_addStaged_fills (seated : Seated roots filter) (bound : filter.mapFd < world.maps.length) (digest : Digest)
    (mode : LogSyncMode) (undo : Bool) :
    wp (addStaged filter digest mode undo) (Fills roots filter [digest] world) (fun _ => True) world := by
  have stages : Keeps (Works filter.name nothing) (stageDigestForAdd filter digest mode) fun result =>
      Follows roots filter result.2 := keeps_stageDigestForAdd seated digest mode
  have failing : ∀ {reply : Reply} {later : Filter} {after : World}, Follows roots filter later →
      Works filter.name nothing world after → (reply.status = .io ∨ reply.status = .bpf) →
      Fills roots filter [digest] world (.error reply, later) after :=
    fun follows works trouble => .failed follows List.nil_prefix Nat.one_pos (.of_feeds works.feeds) trouble
  unfold addStaged
  apply wp_bind
  apply (stages world).mono _ fun _ _ => trivial
  rintro ⟨staged, middle⟩ after ⟨follows, works⟩
  have := follows.owns (Works filter.name nothing)
  cases staged with
  | error errno =>
    have undone : Keeps (Works filter.name nothing) (undoMark middle undo) (Follows roots middle) :=
      keeps_undoMark follows.seated undo
    apply wp_bind
    apply (undone after).mono _ fun _ _ => trivial
    intro later last held
    exact (wp_pure _).mpr (failing (follows.trans held.1) (IsTrans.trans _ _ _ works held.2) (Or.inl rfl))
  | ok stage =>
    apply wp_bind
    apply wp_bpfAddDigest trivial
    · intro failure
      have rolls : Keeps (Works filter.name nothing) (rollbackStagedDigest middle stage mode) (Follows roots middle) :=
        keeps_rollbackStagedDigest follows.seated stage mode
      apply wp_bind
      apply (rolls after).mono _ fun _ _ => trivial
      intro later last held
      have := held.1.owns (Works filter.name nothing)
      have undone : Keeps (Works filter.name nothing) (undoMark later undo) (Follows roots later) :=
        keeps_undoMark held.1.seated undo
      apply wp_bind
      apply (undone last).mono _ fun _ _ => trivial
      intro final final' more
      have both := IsTrans.trans _ _ _ works (IsTrans.trans _ _ _ held.2 more.2)
      exact (wp_pure _).mpr (failing (follows.trans (held.1.trans more.1)) both (Or.inr rfl))
    · have staying := works.feeds.count
      have taken : Puts filter.mapFd [digest] world (after.addDigest middle.mapFd digest) := by
        rw [follows.mapFd]
        exact (Puts.of_feeds works.feeds).trans (.addDigest (bound.trans_le staying) digest)
      have commits : Keeps (Works filter.name nothing) (commitStagedDigest middle mode) (Follows roots middle) :=
        keeps_commitStagedDigest follows.seated mode
      apply wp_bind
      apply (commits (after.addDigest middle.mapFd digest)).mono _ fun _ _ => trivial
      intro later last held
      refine (wp_pure _).mpr (.done (follows.trans held.1) ?_)
      rw [← List.append_nil [digest]]
      exact taken.trans (.of_feeds held.2.feeds)

/-- A digest that was put in first counts with the rest. -/
theorem Fills.cons {middle : Filter} {digest : Digest} {rest : List Digest} {after last : World}
    {result : Except Reply Unit × Filter} (follows : Follows roots filter middle)
    (puts : Puts filter.mapFd [digest] world after)
    (adds : Fills roots middle rest after result last) : Fills roots filter (digest :: rest) world result last := by
  cases adds with
  | done more taken =>
    rw [follows.mapFd] at taken
    exact .done (follows.trans more) (puts.trans taken)
  | failed more first cut taken trouble =>
    rw [follows.mapFd] at taken
    exact .failed (follows.trans more) (List.cons_prefix_cons.mpr ⟨rfl, first⟩) (Nat.succ_lt_succ cut)
      (puts.trans taken) trouble

theorem wp_addItems_fills (mode : LogSyncMode) (marked : Bool) (digests : List Digest) :
    ∀ (anyAdded : Bool) {filter : Filter} {world : World}, Seated roots filter → filter.mapFd < world.maps.length →
    wp (addItems mode marked digests anyAdded filter) (Fills roots filter digests world) (fun _ => True) world := by
  induction digests with
  | nil =>
    intro anyAdded filter world seated bound
    exact (wp_pure _).mpr (.done (.refl seated) (.of_feeds (refl world)))
  | cons digest rest ih =>
    intro anyAdded filter world seated bound
    apply wp_bind
    apply (wp_addStaged_fills seated bound digest mode (marked && !anyAdded)).mono _ fun _ _ => trivial
    intro result after adds
    cases adds with
    | failed follows first cut puts trouble =>
      have short := List.length_pos_of_ne_nil (List.cons_ne_nil digest rest)
      rw [List.length_singleton, Nat.lt_one_iff, List.length_eq_zero_iff] at cut
      rw [cut] at puts
      exact (wp_pure _).mpr (.failed follows List.nil_prefix short puts trouble)
    | @done later after follows puts =>
      have present : later.mapFd < after.maps.length := follows.mapFd ▸ bound.trans_le puts.count
      apply (ih true follows.seated present).mono _ fun _ _ => trivial
      exact fun last final more => .cons follows puts more

/-- What a prepared filter takes in -/
theorem wp_prepareAdd_takes {digests : List Digest} {body : Bytes} (seated : Seated roots filter)
    (bound : filter.mapFd < world.maps.length) (mode : LogSyncMode)
    {next : Except Reply Bool × Filter → Sys (Reply × Filter)}
    (refused : ∀ reply middle, next (.error reply, middle) = pure (reply, middle))
    (works : ∀ marked middle after, Follows roots filter middle → middle.mapFd < after.maps.length →
      wp (next (.ok marked, middle)) (Takes roots middle digests body after) (fun _ => True) after) :
    wp (prepareAdd filter mode >>= next) (Takes roots filter digests body world) (fun _ => True) world := by
  have prepares := keeps_prepareAdd_maps seated mode
  have troubled : wp (prepareAdd filter mode) (fun result _ => ∀ reply, result.1 = .error reply → reply.status = .io)
      (fun _ => True) world := by
    unfold prepareAdd
    apply wp_bind
    apply (wp_trivial _).mono _ fun _ held => held
    rintro ⟨durable, middle⟩ after _
    cases durable with
    | error failure =>
      apply (wp_pure _).mpr
      intro reply same
      rw [← Except.error.inj same]
      rfl
    | ok done =>
      cases mode with
      | always =>
        apply (wp_pure _).mpr
        intro reply impossible
        cases impossible
      | periodic =>
        apply wp_bind
        apply (wp_trivial _).mono _ fun _ held => held
        rintro ⟨marked, later⟩ last _
        cases marked with
        | error failure =>
          apply (wp_pure _).mpr
          intro reply same
          rw [← Except.error.inj same]
          rfl
        | ok changed =>
          apply (wp_pure _).mpr
          intro reply impossible
          cases impossible
  apply wp_bind
  apply ((prepares world).and troubled).mono _ fun _ _ => trivial
  rintro ⟨prepared, middle⟩ after ⟨⟨⟨follows, _⟩, stays⟩, trouble⟩
  cases prepared with
  | error reply =>
    rw [refused]
    exact (wp_pure _).mpr
      (.failed follows List.nil_prefix (Or.inl rfl) (.of_feeds stays.feeds) (Or.inl (trouble reply rfl)))
  | ok marked =>
    have present : middle.mapFd < after.maps.length := follows.mapFd ▸ bound.trans_le stays.feeds.count
    apply (works marked middle after follows present).mono _ fun _ _ => trivial
    intro result last takes
    have start : Puts filter.mapFd [] world after := .of_feeds stays.feeds
    cases takes with
    | done more taken =>
      rw [follows.mapFd] at taken
      exact .done (follows.trans more) (start.trans taken)
    | failed more first cut taken trouble =>
      rw [follows.mapFd] at taken
      exact .failed (follows.trans more) first cut (start.trans taken) trouble

theorem wp_addDigest_takes (seated : Seated roots filter) (bound : filter.mapFd < world.maps.length) (digest : Digest)
    (mode : LogSyncMode) : wp (addDigest filter digest mode) (Takes roots filter [digest] [1] world)
    (fun _ => True) world := by
  apply wp_prepareAdd_takes seated bound mode
  · exact fun reply middle => rfl
  · intro marked middle after follows present
    apply wp_bind
    apply (wp_addStaged_fills follows.seated present digest mode marked).mono _ fun _ _ => trivial
    intro result last adds
    cases adds with
    | done more puts => exact (wp_pure _).mpr (.done (more.counting _ _) puts)
    | failed more first cut puts trouble => exact (wp_pure _).mpr (.failed more first (Or.inr cut) puts trouble)

theorem wp_addBatch_takes (seated : Seated roots filter) (bound : filter.mapFd < world.maps.length)
    (digests : List Digest) (mode : LogSyncMode) : wp (addBatch filter digests mode)
      (Takes roots filter digests (countBytes (digests.map fun _ => 1)) world) (fun _ => True) world := by
  apply wp_prepareAdd_takes seated bound mode
  · exact fun reply middle => rfl
  · intro marked middle after follows present
    apply wp_bind
    apply (wp_addItems_fills mode marked digests false follows.seated present).mono _ fun _ _ => trivial
    intro result last adds
    cases adds with
    | done more puts => exact (wp_pure _).mpr (.done (more.counting _ _) puts)
    | failed more first cut puts trouble => exact (wp_pure _).mpr (.failed more first (Or.inr cut) puts trouble)

end Adding

section Checking

variable {filter : Filter} {world : World}

/-- A lookup changes nothing and finds what the map holds. -/
theorem wp_bpfCheckDigest_finds (map : Nat) (digest : Digest) :
    wp (bpfCheckDigest map digest)
      (fun result after => after = world ∧ ∀ present, result = .ok present → digest ∈ world.contents map →
        present = true)
      (fun _ => True) world := by
  have looks : wp (sysMapLookup map digest)
      (fun result after => after = world ∧ (result = .error .enoent → digest ∉ world.contents map))
        (fun _ => True) world := by
    refine (wp_call _).mpr ⟨trivial, fun answer => ?_⟩
    cases answer with
    | fail fault => cases fault <;> exact ⟨rfl, fun impossible => Errno.noConfusion (Except.error.inj impossible)⟩
    | interrupted => exact ⟨rfl, fun impossible => Errno.noConfusion (Except.error.inj impossible)⟩
    | ok | time | count =>
      refine ⟨rfl, ?_⟩
      intro missing member
      simp only [member, ↓reduceIte] at missing
      cases missing
  unfold bpfCheckDigest
  apply wp_bind
  apply looks.mono _ fun _ held => held
  rintro result after ⟨rfl, absent⟩
  cases result with
  | ok done =>
    refine (wp_pure _).mpr ⟨rfl, ?_⟩
    intro present same _
    exact (Except.ok.inj same).symm
  | error errno =>
    simp only
    split
    · rename_i missing
      subst missing
      exact (wp_pure _).mpr ⟨rfl, fun present same member => absurd member (absent rfl)⟩
    · refine (wp_pure _).mpr ⟨rfl, ?_⟩
      intro present impossible
      cases impossible

theorem wp_checkDigest_reports (payload : Bytes) :
    wp (checkDigest filter (digestPayload payload))
      (fun result after => after = world ∧ (∃ checks, result.2 = { filter with checkCalls := checks }) ∧
        ((∃ byte, result.1 = .ok [byte] ∧ Reports {digest | digest ∈ world.contents filter.mapFd} [payload] [byte]) ∨
          result.1.status = .bpf)) (fun _ => True) world := by
  unfold checkDigest
  apply wp_bind
  apply (wp_bpfCheckDigest_finds filter.mapFd (digestPayload payload)).mono _ fun _ held => held
  rintro result after ⟨rfl, finds⟩
  cases result with
  | error failure => exact (wp_pure _).mpr ⟨rfl, ⟨filter.checkCalls, rfl⟩, Or.inr rfl⟩
  | ok present =>
    refine (wp_pure _).mpr ⟨rfl, ⟨_, rfl⟩, Or.inl ⟨_, rfl, .cons ⟨?_, ?_⟩ .nil⟩⟩
    · cases present with
      | false => exact Or.inl rfl
      | true => exact Or.inr rfl
    · intro member
      rw [finds present rfl member]
      rfl

theorem wp_checkItems_reports (payloads : List Bytes) :
    wp (checkItems filter (payloads.map digestPayload))
      (fun result after => after = world ∧
        (∀ results, result = .ok results → Reports {digest | digest ∈ world.contents filter.mapFd} payloads results) ∧
        (∀ reply, result = .error reply → reply.status = .bpf)) (fun _ => True) world := by
  induction payloads with
  | nil =>
    refine (wp_pure _).mpr ⟨rfl, ?_, ?_⟩
    · intro results same
      rw [← Except.ok.inj same]
      exact .nil
    · intro reply impossible
      cases impossible
  | cons payload rest ih =>
    rw [List.map_cons, checkItems]
    apply wp_bind
    apply (wp_bpfCheckDigest_finds filter.mapFd (digestPayload payload)).mono _ fun _ held => held
    rintro result after ⟨rfl, finds⟩
    cases result with
    | error failure =>
      refine (wp_pure _).mpr ⟨rfl, ?_, ?_⟩
      · intro results impossible
        cases impossible
      · intro reply same
        rw [← Except.error.inj same]
        rfl
    | ok present =>
      apply wp_bind
      apply ih.mono _ fun _ held => held
      rintro result last ⟨rfl, reports, trouble⟩
      cases result with
      | error reply =>
        refine (wp_pure _).mpr ⟨rfl, ?_, ?_⟩
        · intro results impossible
          cases impossible
        · intro other same
          exact trouble other same
      | ok results =>
        refine (wp_pure _).mpr ⟨rfl, ?_, ?_⟩
        · intro all same
          rw [← Except.ok.inj same]
          refine .cons ⟨?_, ?_⟩ (reports results rfl)
          · cases present with
            | false => exact Or.inl rfl
            | true => exact Or.inr rfl
          · intro member
            rw [finds present rfl member]
            rfl
        · intro reply impossible
          cases impossible

theorem wp_checkBatch_reports (payloads : List Bytes) :
    wp (checkBatch filter (payloads.map digestPayload))
      (fun result after => after = world ∧ (∃ checks, result.2 = { filter with batchCheckCalls := checks }) ∧
        ((∃ results, result.1 = .ok (countBytes results) ∧
          Reports {digest | digest ∈ world.contents filter.mapFd} payloads results) ∨ result.1.status = .bpf))
      (fun _ => True) world := by
  unfold checkBatch
  apply wp_bind
  apply (wp_checkItems_reports payloads).mono _ fun _ held => held
  rintro result after ⟨rfl, reports, trouble⟩
  cases result with
  | error reply => exact (wp_pure _).mpr ⟨rfl, ⟨filter.batchCheckCalls, rfl⟩, Or.inr (trouble reply rfl)⟩
  | ok results => exact (wp_pure _).mpr ⟨rfl, ⟨_, rfl⟩, Or.inl ⟨results, rfl, reports results rfl⟩⟩

end Checking

/-- The body of a reply that reports success -/
def Reply.body : Reply → Bytes
  | .ok body => body
  | .error _ _ _ => []

/-- A request was served as the store of the daemon allows. -/
structure Daemon.ServedAs (daemon : Daemon) (request : Request) (before : World) (result : Reply × Daemon)
    (after : World) : Prop where
  honest : result.1.status = .ok → result.1 = .ok result.1.body
  serves : (daemon.store before).Serves request result.1.status.code result.1.body (result.2.store after)

section Handlers

variable {roots : Config} {daemon later : Daemon} {world after : World} {passed : Bytes → Option (List Digest)}
  {added : Bytes → List Digest} {request : Request} {filter changed : Filter} {index : Nat} {reply : Reply}

/-- An error about the log, the metadata or the map of a filter that is there -/
theorem Daemon.servedAs_troubled (there : daemon.store world request.target ≠ none)
    (trouble : reply.status = .io ∨ reply.status = .bpf)
    (refuses : (daemon.store world).Refuses request (later.store after)) :
    daemon.ServedAs request world (reply, later) after := by
  have apart : ∀ status, status ≠ .io → status ≠ .bpf → reply.status ≠ status := by
    rintro status first second rfl
    rcases trouble with io | bpf
    · exact first io
    · exact second bpf
  have bad := apart .ok Status.noConfusion Status.noConfusion
  have found := apart .notFound Status.noConfusion Status.noConfusion
  refine ⟨fun same => absurd same bad, ?_, fun _ => refuses, ?_, fun _ => there⟩
  · exact fun same => absurd (Status.code_injective same) bad
  · exact ⟨fun same => absurd (Status.code_injective same) found, fun missing => absurd missing.1 there⟩

theorem Daemon.servedAs_done {body : Bytes} (there : daemon.store world request.target ≠ none)
    (accepts : (daemon.store world).Accepts request body (later.store after)) :
    daemon.ServedAs request world (.ok body, later) after := by
  refine ⟨fun _ => rfl, fun _ => accepts, fun wrong => absurd rfl wrong, ?_, fun _ => there⟩
  constructor
  · exact fun same => Status.noConfusion (Status.code_injective same)
  · exact fun missing => absurd missing.1 there

/-- A request for a filter that is not there changes nothing. -/
theorem Daemon.servedAs_missing (code : ErrorCode) (message : String)
    (missing : daemon.store world request.target = none)
    (unmade : ∀ fields, request ≠ .create fields) (same : later.store after = daemon.store world) :
    daemon.ServedAs request world (.error .notFound code message, later) after := by
  refine ⟨Status.noConfusion, ?_, ?_, ⟨fun _ => ⟨missing, unmade⟩, fun _ => rfl⟩, ?_⟩
  · exact fun same => Status.noConfusion (Status.code_injective same)
  · intro _
    rw [same]
    exact .nothing
  · exact fun same => Status.noConfusion (Status.code_injective same)

theorem Daemon.store_looked (name : Bytes) : ({ daemon with set := (daemon.set.findN name).2 } : Daemon).store world =
    daemon.store world := by
  unfold Daemon.store
  simp only [FilterSet.findN_items]

/-- Work on the filter that a request names -/
theorem wp_withFilter_served (serving : Serving (anyUpkeep roots) daemon added world)
    (valid : nameIsValid request.target = true) (unmade : ∀ fields, request ≠ .create fields)
    {work : Filter → Sys (Reply × Filter)}
    (works : ∀ index filter, daemon.set.items[index]? = some filter → filter.name = request.target →
      wp (work filter) (fun result after => daemon.ServedAs request world (result.1, { daemon with
        set := { (daemon.set.findN request.target).2 with items := daemon.set.items.set index result.2 } }) after)
        (fun _ => True) world) :
    wp (withFilter daemon request.target work) (daemon.ServedAs request world) (fun _ => True) world := by
  unfold withFilter
  simp only
  cases located : (daemon.set.findN request.target).1 with
  | none =>
    have missing := FilterSet.findN_missing serving.named valid located
    exact (wp_pure _).mpr
      (Daemon.servedAs_missing _ _ (Daemon.store_eq_none.mpr missing) unmade (Daemon.store_looked request.target))
  | some index =>
    obtain ⟨filter, found, named⟩ := FilterSet.findN_name serving.named valid located
    simp only [FilterSet.findN_items, found]
    apply wp_bind
    apply (works index filter found named).mono _ fun _ held => held
    intro result after served
    exact (wp_pure _).mpr served

section Found

variable (serving : Serving (anyUpkeep roots) daemon added world) (isolated : Isolated daemon world passed)
  (found : daemon.set.items[index]? = some filter) (named : filter.name = request.target)

include serving isolated found named

theorem Takes.served {digests : List Digest} {body : Bytes} {result : Reply × Filter} {set : FilterSet}
    (takes : Takes roots filter digests body world result after)
    (accepts : ∀ held, daemon.store world request.target = some held →
      (daemon.store world).Accepts request body ((daemon.store world).put request.target held digests))
    (refuses : ∀ held front, daemon.store world request.target = some held → front <+: digests →
      front.length < digests.length →
      (daemon.store world).Refuses request ((daemon.store world).put request.target held front)) :
    daemon.ServedAs request world (result.1, { daemon with
      set := { set with items := daemon.set.items.set index result.2 } }) after := by
  have unique := serving.tended.unique
  have there : daemon.store world request.target = some {digest | digest ∈ world.contents filter.mapFd} := by
    rw [← named]
    exact Daemon.store_found unique found
  have present : daemon.store world request.target ≠ none := by
    rw [there]
    exact Option.some_ne_none _
  have worked : ∀ {changed : Filter} {front : List Digest}, Follows roots filter changed →
      Puts filter.mapFd front world after →
      ({ daemon with set := { set with items := daemon.set.items.set index changed } } : Daemon).store after =
        (daemon.store world).put request.target {digest | digest ∈ world.contents filter.mapFd} front := by
    intro changed front follows puts
    rw [← named]
    exact Daemon.store_worked unique (List.nodup_append.mp isolated.distinct).1 found follows.name
      follows.mapFd rfl puts
  cases takes with
  | done follows puts =>
    apply Daemon.servedAs_done present
    rw [worked follows puts]
    exact accepts _ there
  | failed follows first cut puts trouble =>
    apply Daemon.servedAs_troubled present trouble
    rw [worked follows puts]
    rcases cut with rfl | short
    · rw [Store.put_nil there]
      exact .nothing
    · exact refuses _ _ there first short

/-- Lookups leave the store as it is. -/
theorem Daemon.servedAs_checked {set : FilterSet} (mapped : changed.mapFd = filter.mapFd)
    (named' : changed.name = filter.name)
    (outcome : (∃ body, reply = .ok body ∧ ∀ held, daemon.store world request.target = some held →
      held = {digest | digest ∈ world.contents filter.mapFd} →
        (daemon.store world).Accepts request body (daemon.store world)) ∨
      reply.status = .bpf) :
    daemon.ServedAs request world (reply, { daemon with
      set := { set with items := daemon.set.items.set index changed } }) world := by
  have unique := serving.tended.unique
  have there : daemon.store world request.target = some {digest | digest ∈ world.contents filter.mapFd} := by
    rw [← named]
    exact Daemon.store_found unique found
  have present : daemon.store world request.target ≠ none := by
    rw [there]
    exact Option.some_ne_none _
  have same : ({ daemon with set := { set with items := daemon.set.items.set index changed } } : Daemon).store world =
      daemon.store world := by
    have puts : Puts filter.mapFd [] world world := .of_feeds (refl world)
    rw [Daemon.store_worked unique (List.nodup_append.mp isolated.distinct).1 found named' mapped rfl puts]
    rw [named]
    exact Store.put_nil there
  rcases outcome with ⟨body, rfl, accepts⟩ | trouble
  · apply Daemon.servedAs_done present
    rw [same]
    exact accepts _ there rfl
  · apply Daemon.servedAs_troubled present (Or.inr trouble)
    rw [same]
    exact .nothing

end Found

theorem wp_handleAdd_served (serving : Serving (anyUpkeep roots) daemon added world)
    (isolated : Isolated daemon world passed) {name : Bytes} (payload : Bytes) (valid : nameIsValid name = true) :
    wp (handleAddCheck daemon name payload true) (daemon.ServedAs (.add name payload) world)
      (fun _ => True) world := by
  unfold handleAddCheck
  simp only [valid, Bool.not_true, Bool.false_eq_true, ↓reduceIte]
  apply @wp_withFilter_served roots daemon world added (.add name payload) serving valid
    (fun _ impossible => by cases impossible)
  intro index filter found named
  have settled := serving.tended.settled filter (List.mem_of_getElem? found)
  apply (wp_addDigest_takes settled.seated settled.matched.bound
    (digestPayload payload) daemon.config.logSyncMode).mono _ fun _ held => held
  intro result after takes
  apply takes.served serving isolated found named
  · exact fun held present => .add present
  · intro held front present first short
    rw [List.length_singleton, Nat.lt_one_iff, List.length_eq_zero_iff] at short
    rw [short, Store.put_nil present]
    exact .nothing

theorem wp_handleCheck_served (serving : Serving (anyUpkeep roots) daemon added world)
    (isolated : Isolated daemon world passed) {name : Bytes} (payload : Bytes) (valid : nameIsValid name = true) :
    wp (handleAddCheck daemon name payload false) (daemon.ServedAs (.check name payload) world)
      (fun _ => True) world := by
  unfold handleAddCheck
  simp only [valid, Bool.not_true, Bool.false_eq_true, ↓reduceIte]
  apply @wp_withFilter_served roots daemon world added (.check name payload) serving valid
    (fun _ impossible => by cases impossible)
  intro index filter found named
  apply (wp_checkDigest_reports payload).mono _ fun _ held => held
  rintro ⟨reply, changed⟩ after ⟨rfl, ⟨checks, counted⟩, outcome⟩
  have alike : changed.mapFd = filter.mapFd ∧ changed.name = filter.name := by
    rw [show changed = _ from counted]
    exact ⟨rfl, rfl⟩
  apply Daemon.servedAs_checked serving isolated found named alike.1 alike.2
  rcases outcome with ⟨byte, same, reports⟩ | trouble
  · refine Or.inl ⟨[byte], same, ?_⟩
    rintro held present rfl
    exact .check present reports
  · exact Or.inr trouble

theorem wp_handleMadd_served (serving : Serving (anyUpkeep roots) daemon added world)
    (isolated : Isolated daemon world passed)
    {name : Bytes} (payloads : List Bytes) (valid : nameIsValid name = true) :
    wp (handleBatch daemon name payloads true) (daemon.ServedAs (.madd name payloads) world)
      (fun _ => True) world := by
  unfold handleBatch
  simp only [valid, Bool.not_true, Bool.false_eq_true, ↓reduceIte]
  apply @wp_withFilter_served roots daemon world added (.madd name payloads) serving valid
    (fun _ impossible => by cases impossible)
  intro index filter found named
  have settled := serving.tended.settled filter (List.mem_of_getElem? found)
  apply (wp_addBatch_takes settled.seated settled.matched.bound
    (payloads.map digestPayload) daemon.config.logSyncMode).mono _ fun _ held => held
  intro result after takes
  apply takes.served serving isolated found named
  · intro held present
    rw [List.map_map]
    exact .madd present
  · intro held front present first short
    obtain ⟨early, earlier, rfl⟩ := List.prefix_map_iff.mp first
    rw [List.length_map, List.length_map] at short
    exact .madd present earlier short

theorem wp_handleMcheck_served (serving : Serving (anyUpkeep roots) daemon added world)
    (isolated : Isolated daemon world passed)
    {name : Bytes} (payloads : List Bytes) (valid : nameIsValid name = true) :
    wp (handleBatch daemon name payloads false) (daemon.ServedAs (.mcheck name payloads) world)
      (fun _ => True) world := by
  unfold handleBatch
  simp only [valid, Bool.not_true, Bool.false_eq_true, ↓reduceIte]
  apply @wp_withFilter_served roots daemon world added (.mcheck name payloads) serving valid
    (fun _ impossible => by cases impossible)
  intro index filter found named
  apply (wp_checkBatch_reports payloads).mono _ fun _ held => held
  rintro ⟨reply, changed⟩ after ⟨rfl, ⟨checks, counted⟩, outcome⟩
  have alike : changed.mapFd = filter.mapFd ∧ changed.name = filter.name := by
    rw [show changed = _ from counted]
    exact ⟨rfl, rfl⟩
  apply Daemon.servedAs_checked serving isolated found named alike.1 alike.2
  rcases outcome with ⟨results, same, reports⟩ | trouble
  · refine Or.inl ⟨_, same, ?_⟩
    rintro held present rfl
    exact .mcheck present reports
  · exact Or.inr trouble

/-- How a CREATE or DROP comes out: the set grows or shrinks by one, or stays -/
def Alters (daemon : Daemon) (grows : Bool) (result : Reply × Daemon) : Prop :=
  (result.1 = .ok [] ∧ result.2.set.items.length + (if grows then 0 else 1) =
      daemon.set.items.length + if grows then 1 else 0) ∨
    result.1.status ≠ .ok ∧ result.2.set.items = daemon.set.items

theorem wp_installFilter_alters (items : later.set.items = daemon.set.items) (filter : Filter) :
    wp (installFilter later filter) (fun result _ => Alters daemon true result ∧ result.1.status ≠ .notFound ∧
      result.1.status ≠ .exists) (fun _ => True) world := by
  unfold installFilter
  apply wp_bind
  apply (wp_trivial _).mono _ fun _ held => held
  intro written after _
  cases written with
  | error errno =>
    exact (wp_pure _).mpr ⟨Or.inr ⟨Status.noConfusion, items⟩, Status.noConfusion, Status.noConfusion⟩
  | ok done =>
    apply wp_bind
    apply (wp_filterSetAdd later.set filter after).mono _ fun _ _ => trivial
    rintro result last ⟨rfl, grown⟩
    cases result with
    | error errno =>
      unfold uninstall
      apply wp_bind
      apply (wp_trivial _).mono _ fun _ held => held
      intro deleted last' _
      apply wp_bind
      apply (wp_trivial _).mono _ fun _ held => held
      intro removed last'' _
      apply wp_bind
      apply (wp_trivial _).mono _ fun _ held => held
      intro unpinned final _
      exact (wp_pure _).mpr ⟨Or.inr ⟨Status.noConfusion, items⟩, Status.noConfusion, Status.noConfusion⟩
    | ok set =>
      refine (wp_pure _).mpr ⟨Or.inl ⟨rfl, ?_⟩, Status.noConfusion, Status.noConfusion⟩
      simp [grown set rfl, items]

theorem wp_handleCreate_alters [Libm] (fields : CreateRequest) (serving : Serving (anyUpkeep roots) daemon added world)
    (valid : nameIsValid fields.name = true) :
    wp (handleCreate daemon fields) (fun result _ => Alters daemon true result ∧ result.1.status ≠ .notFound ∧
      (result.1.status = .exists → daemon.store world fields.name ≠ none)) (fun _ => True) world := by
  have refused : ∀ {reply : Reply} {later : Daemon}, later.set.items = daemon.set.items → reply.status ≠ .ok →
      reply.status ≠ .notFound → reply.status ≠ .exists → Alters daemon true (reply, later) ∧
        reply.status ≠ .notFound ∧
        (reply.status = .exists → daemon.store world fields.name ≠ none) :=
    fun items bad missing taken => ⟨Or.inr ⟨bad, items⟩, missing, fun same => absurd same taken⟩
  unfold handleCreate
  simp only [valid, Bool.not_true, Bool.false_eq_true, ↓reduceIte]
  split
  · exact (wp_pure _).mpr (refused rfl Status.noConfusion Status.noConfusion Status.noConfusion)
  · split
    · rename_i found
      obtain ⟨index, located⟩ := Option.isSome_iff_exists.mp found
      obtain ⟨filter, there, named⟩ := FilterSet.findN_name serving.named valid located
      refine (wp_pure _).mpr ⟨Or.inr ⟨Status.noConfusion, FilterSet.findN_items⟩, Status.noConfusion, ?_⟩
      intro _ absent
      exact Daemon.store_eq_none.mp absent filter (List.mem_of_getElem? there) named
    · split
      · exact (wp_pure _).mpr (refused FilterSet.findN_items Status.noConfusion Status.noConfusion Status.noConfusion)
      · rename_i metadata assigned
        have items := congrArg FilterSet.items
          (takeEmptyMap_items { daemon with set := (daemon.set.findN fields.name).2 }
          metadata.capacity metadata.hashes metadata.valueSize)
        rw [FilterSet.findN_items] at items
        generalize takeEmptyMap { daemon with set := (daemon.set.findN fields.name).2 }
          metadata.capacity metadata.hashes metadata.valueSize = taken at items ⊢
        obtain ⟨map, later⟩ := taken
        have installs : ∀ (map : Nat) (middle : World), wp (installFilter later (.fresh metadata map))
            (fun result _ => Alters daemon true result ∧ result.1.status ≠ .notFound ∧
              (result.1.status = .exists → daemon.store world fields.name ≠ none)) (fun _ => True) middle := by
          intro map middle
          apply (wp_installFilter_alters items (.fresh metadata map)).mono _ fun _ held => held
          rintro result last ⟨alters, missing, taken⟩
          exact ⟨alters, missing, fun same => absurd same taken⟩
        cases map with
        | some map => exact installs map world
        | none =>
          apply wp_bind
          apply (wp_trivial _).mono _ fun _ held => held
          intro result after _
          cases result with
          | error failure =>
            simp only
            split
            · exact (wp_pure _).mpr (refused items Status.noConfusion Status.noConfusion Status.noConfusion)
            · exact (wp_pure _).mpr (refused items Status.noConfusion Status.noConfusion Status.noConfusion)
          | ok map => exact installs map after

theorem wp_handleDrop_alters {name : Bytes} (serving : Serving (anyUpkeep roots) daemon added world)
    (valid : nameIsValid name = true) :
    wp (handleDrop daemon name) (fun result _ => Alters daemon false result ∧
      (result.1.status = .notFound ↔ daemon.store world name = none) ∧ result.1.status ≠ .exists)
      (fun _ => True) world := by
  unfold handleDrop
  simp only [valid, Bool.not_true, Bool.false_eq_true, ↓reduceIte]
  cases located : (daemon.set.findN name).1 with
  | none =>
    have missing : daemon.store world name = none :=
      Daemon.store_eq_none.mpr (FilterSet.findN_missing serving.named valid located)
    exact (wp_pure _).mpr ⟨Or.inr ⟨Status.noConfusion, FilterSet.findN_items⟩, ⟨fun _ => missing, fun _ => rfl⟩,
      Status.noConfusion⟩
  | some index =>
    obtain ⟨filter, found, named⟩ := FilterSet.findN_name serving.named valid located
    have present : daemon.store world name ≠ none := by
      rw [← named, Daemon.store_found serving.tended.unique found]
      exact Option.some_ne_none _
    have unlike : ∀ {reply : Reply}, reply.status ≠ .notFound →
        (reply.status = .notFound ↔ daemon.store world name = none) :=
      fun other => ⟨fun same => absurd same other, fun absent => absurd absent present⟩
    simp only [FilterSet.findN_items, found]
    apply wp_bind
    apply ((returns_dropFiles filter).wp world).mono _ fun _ held => held
    intro result after failed
    cases result with
    | error reply =>
      have fails : reply.Failed := failed
      cases reply with
      | ok body => exact fails.elim
      | error status code message =>
        have apart : ∀ {other : Status}, other.rejects = true → status ≠ other := by
          rintro other rejects rfl
          rw [fails.2.1] at rejects
          cases rejects
        exact (wp_pure _).mpr ⟨Or.inr ⟨fails.1, FilterSet.findN_items⟩, unlike (apart rfl), apart rfl⟩
    | ok done =>
      have member : filter ∈ (daemon.set.findN name).2.items := by
        rw [FilterSet.findN_items]
        exact List.mem_of_getElem? found
      have matched : nameMatches filter.name name = true :=
        (nameMatches_iff (serving.named filter (List.mem_of_getElem? found)) valid).mpr named
      unfold removeDropped
      apply wp_bind
      apply (wp_filterSetRemoveN_length member matched).mono _ fun _ held => held
      rintro ⟨removed, set⟩ last length
      rw [FilterSet.findN_items] at length
      exact (wp_pure _).mpr ⟨Or.inl ⟨rfl, length⟩, unlike Status.noConfusion, Status.noConfusion⟩

theorem Daemon.store_kept (items : later.set.items = daemon.set.items) (feeds : Feeds nothing world after) :
    later.store after = daemon.store world := by
  funext name
  simp only [Daemon.store, items, feeds.kept]

theorem wp_handleCreate_served [Libm] (serving : Serving (anyUpkeep roots) daemon added world)
    (isolated : Isolated daemon world passed) {fields : CreateRequest} (valid : nameIsValid fields.name = true) :
    wp (handleCreate daemon fields) (daemon.ServedAs (.create fields) world) (fun _ => True) world := by
  apply ((wp_handleCreate_handled serving fields).and (wp_handleCreate_alters fields serving valid)).mono _
    fun _ _ => trivial
  rintro ⟨reply, later⟩ after ⟨⟨_, handling⟩, alters, found, taken⟩
  have missing : reply.status.code = Status.notFound.code ↔
      daemon.store world fields.name = none ∧ ∀ other, Request.create fields ≠ .create other :=
    ⟨fun same => absurd (Status.code_injective same) found, fun both => absurd rfl (both.2 fields)⟩
  have exists' : reply.status.code = Status.exists.code → daemon.store world fields.name ≠ none :=
    fun same => taken (Status.code_injective same)
  cases handling with
  | kept items pool unmade feeds =>
    have bad := unmade fields rfl
    refine ⟨fun same => absurd same bad, fun same => absurd (Status.code_injective same) bad, ?_, missing, exists'⟩
    · intro _
      rw [Daemon.store_kept items feeds]
      exact .nothing
  | worked found named absorbed items pool unmade => exact absurd rfl (unmade fields)
  | dropped found named items pool unmade feeds => exact absurd rfl (unmade fields)
  | created making named free unfilled source items feeds =>
    rename_i filter
    have empty : after.contents filter.mapFd = [] := by
      rw [feeds.kept]
      rcases source with ⟨new, _⟩ | ⟨pooled, holds, same, _⟩
      · simp [new, World.contents]
      · rw [same]
        exact isolated.pooled pooled holds
    have unserved : daemon.store world fields.name = none := by
      apply Daemon.store_eq_none.mpr
      intro other member
      rw [show fields.name = filter.name from named.symm]
      exact free other member
    rcases alters with ⟨same, _⟩ | ⟨_, stays⟩
    · replace same : reply = .ok [] := same
      subst same
      refine ⟨fun _ => rfl, fun _ => ?_, fun wrong => absurd rfl wrong, missing, exists'⟩
      rw [Daemon.store_created serving.tended.unique free items empty feeds, named]
      exact .create unserved
    · have longer := congrArg List.length (items.symm.trans stays)
      rw [List.length_append, List.length_singleton] at longer
      omega

theorem wp_handleDrop_served (serving : Serving (anyUpkeep roots) daemon added world) {name : Bytes}
    (valid : nameIsValid name = true) :
    wp (handleDrop daemon name) (daemon.ServedAs (.drop name) world) (fun _ => True) world := by
  apply ((wp_handleDrop_handled serving name).and (wp_handleDrop_alters serving valid)).mono _ fun _ _ => trivial
  rintro ⟨reply, later⟩ after ⟨⟨_, handling⟩, alters, found, taken⟩
  have missing : reply.status.code = Status.notFound.code ↔
      daemon.store world name = none ∧ ∀ fields, Request.drop name ≠ .create fields := by
    constructor
    · intro same
      refine ⟨found.mp (Status.code_injective same), ?_⟩
      intro fields impossible
      cases impossible
    · intro both
      rw [found.mpr both.1]
  have exists' : reply.status.code = Status.exists.code → daemon.store world name ≠ none :=
    fun same => absurd (Status.code_injective same) taken
  cases handling with
  | kept items pool unmade feeds =>
    have same := Daemon.store_kept items feeds
    rcases alters with ⟨_, shorter⟩ | ⟨bad, _⟩
    · rw [items] at shorter
      simp at shorter
    · refine ⟨fun same => absurd same bad, fun same => absurd (Status.code_injective same) bad, fun _ => ?_,
        missing, exists'⟩
      rw [same]
      exact .nothing
  | worked located named absorbed items pool unmade =>
    have feeds : Feeds nothing world after := absorbed.works.feeds.mono fun _ _ permitted => by cases permitted.2
    rcases alters with ⟨_, shorter⟩ | ⟨bad, stays⟩
    · rw [items] at shorter
      simp at shorter
    · refine ⟨fun same => absurd same bad, fun same => absurd (Status.code_injective same) bad, fun _ => ?_,
        missing, exists'⟩
      rw [Daemon.store_kept stays feeds]
      exact .nothing
  | created making named free unfilled source items feeds =>
    obtain ⟨fields, impossible⟩ := making
    cases impossible
  | dropped located named items pool unmade feeds =>
    rename_i index filter
    have there : daemon.store world filter.name = some {digest | digest ∈ world.contents filter.mapFd} :=
      Daemon.store_found serving.tended.unique located
    have inside := (List.getElem?_eq_some_iff.mp located).1
    rcases alters with ⟨same, _⟩ | ⟨_, stays⟩
    · replace same : reply = .ok [] := same
      subst same
      refine ⟨fun _ => rfl, fun _ => ?_, fun wrong => absurd rfl wrong, missing, exists'⟩
      rw [Daemon.store_dropped serving.tended.unique located items feeds, named]
      exact .drop (named ▸ there)
    · have shorter := congrArg List.length (items.symm.trans stays)
      rw [List.length_eraseIdx_of_lt inside] at shorter
      omega

/-- Every request on a filter is served as the store allows. -/
theorem wp_handle_served [Libm] (serving : Serving (anyUpkeep roots) daemon added world)
    (isolated : Isolated daemon world passed) (request : Request) (valid : nameIsValid request.target = true) :
    wp (handle daemon request) (daemon.ServedAs request world) (fun _ => True) world := by
  cases request with
  | create fields => exact wp_handleCreate_served serving isolated valid
  | add name payload => exact wp_handleAdd_served serving isolated payload valid
  | check name payload => exact wp_handleCheck_served serving isolated payload valid
  | madd name payloads => exact wp_handleMadd_served serving isolated payloads valid
  | mcheck name payloads => exact wp_handleMcheck_served serving isolated payloads valid
  | drop name => exact wp_handleDrop_served serving valid

end Handlers

section Frames

variable {roots : Config} {daemon : Daemon} {world : World} {passed : Bytes → Option (List Digest)}
  {added : Bytes → List Digest}

theorem parseRequest_valid {opcode : UInt8} {body : Bytes} {request : Request}
    (parsed : parseRequest opcode body = some request) : nameIsValid request.target = true := by
  have batches : ∀ (make : Bytes → List Bytes → Request), (∀ name payloads, (make name payloads).target = name) →
      ((parseBatch body).toOption.bind fun batch => batch.payloads.map (make batch.name)) = some request →
      nameIsValid request.target = true := by
    intro make targets found
    obtain ⟨batch, accepted, read⟩ := Option.bind_eq_some_iff.mp found
    obtain ⟨payloads, _, rfl⟩ := Option.map_eq_some_iff.mp read
    obtain ⟨_, _, _, _, valid, rfl⟩ := parseBatch_ok (toOption_some accepted)
    rw [targets]
    exact valid
  unfold parseRequest at parsed
  split at parsed
  · obtain ⟨fields, accepted, rfl⟩ := Option.map_eq_some_iff.mp parsed
    exact (parseCreate_ok (toOption_some accepted)).2.2.1
  · obtain ⟨⟨name, payload⟩, accepted, rfl⟩ := Option.map_eq_some_iff.mp parsed
    exact (parseNamePayload_ok (toOption_some accepted)).2.2.1
  · obtain ⟨⟨name, payload⟩, accepted, rfl⟩ := Option.map_eq_some_iff.mp parsed
    exact (parseNamePayload_ok (toOption_some accepted)).2.2.1
  · exact batches _ (fun _ _ => rfl) parsed
  · exact batches _ (fun _ _ => rfl) parsed
  · obtain ⟨name, accepted, rfl⟩ := Option.map_eq_some_iff.mp parsed
    exact (parseNameRequest_ok (toOption_some accepted)).2.2.2.1
  · cases parsed

/-- The list of the names is the list of the filters in the store. -/
theorem lists_names (serving : Serving (anyUpkeep roots) daemon added world) {view : RequestView} {start : Response}
    (fresh : start.header.status = Status.ok.code) (empty : start.body = [])
    (success : (settle (withoutBody "LIST" daemon view.body start (handleList daemon.set))).2.1.header.status =
      Status.ok.code) :
    ∃ names, decodeList (settle (withoutBody "LIST" daemon view.body start (handleList daemon.set))).2.1.body =
      some names ∧
      names.Nodup ∧ ∀ name, name ∈ names ↔ daemon.store world name ≠ none := by
  obtain ⟨fine, body⟩ := withoutBody_success fresh success
  obtain ⟨listed, bounded⟩ := list_answer empty fine
  refine ⟨daemon.set.items.map Filter.name, ?_, serving.tended.unique, ?_⟩
  · rw [body, listed]
    rw [listed] at bounded
    apply decodeList_namesBody
    · intro filter member
      have short := length_of_valid (serving.named filter member)
      simp only [maxNameLen] at short
      omega
    · have entries := length_namesBody daemon.set.items
      simp only [List.length_append, length_storeU32, maxFrameBody] at bounded
      omega
  · intro name
    rw [ne_eq, Daemon.store_eq_none, List.mem_map]
    simp

/-- INFO looks its filter up. -/
theorem info_status (serving : Serving (anyUpkeep roots) daemon added world) {body name : Bytes} {start : Response}
    (fresh : start.header.status = Status.ok.code) (parsed : parseNameRequest "INFO" body = .ok name) :
    (settle (handleInfo daemon body start)).2.1.header.status = Status.notFound.code ↔
    daemon.store world name = none := by
  have valid := (parseNameRequest_ok parsed).2.2.2.1
  unfold handleInfo
  simp only [parsed, FilterSet.findN_items]
  cases located : (daemon.set.findN name).1 with
  | none =>
    have missing : daemon.store world name = none :=
      Daemon.store_eq_none.mpr (FilterSet.findN_missing serving.named valid located)
    simp only [Option.bind_none, missing,
      Response.error_eq start .notFound .none (show (bytes "filter not found").length ≤ 255 by
      decide)]
    exact ⟨fun _ => trivial, fun _ => rfl⟩
  | some index =>
    obtain ⟨filter, found, named⟩ := FilterSet.findN_name serving.named valid located
    have present : daemon.store world name ≠ none := by
      rw [← named, Daemon.store_found serving.tended.unique found]
      exact Option.some_ne_none _
    simp only [Option.bind_some, found, present, iff_false]
    generalize bufferAppendEach (infoPieces filter) start.body = outcome
    obtain ⟨result, appended⟩ := outcome
    cases result with
    | ok done =>
      simp only [settle, fresh]
      decide
    | error errno =>
      simp only [settle, fresh, ↓reduceIte]
      rw [Response.error_eq _ .internal .none (show (bytes "internal buffer failure").length ≤ 255 by decide)]
      exact (by decide : Status.internal.code ≠ Status.notFound.code)

/-- The payloads of a batch -/
def Request.payloads : Request → List Bytes
  | .madd _ payloads | .mcheck _ payloads => payloads
  | _ => []

theorem parseRequest_few {opcode : UInt8} {body : Bytes} {request : Request}
    (parsed : parseRequest opcode body = some request) : request.payloads.length ≤ maxBatchItems := by
  have batches : ∀ (make : Bytes → List Bytes → Request), (∀ name payloads, (make name payloads).payloads = payloads) →
      ((parseBatch body).toOption.bind fun batch => batch.payloads.map (make batch.name)) = some request →
      request.payloads.length ≤ maxBatchItems := by
    intro make gives found
    obtain ⟨batch, accepted, read⟩ := Option.bind_eq_some_iff.mp found
    obtain ⟨payloads, there, rfl⟩ := Option.map_eq_some_iff.mp read
    obtain ⟨_, _, few, _, _, fields⟩ := parseBatch_ok (toOption_some accepted)
    rw [gives, length_readItems (payloads_some there), fields]
    exact few
  unfold parseRequest at parsed
  split at parsed
  · obtain ⟨fields, _, rfl⟩ := Option.map_eq_some_iff.mp parsed
    exact Nat.zero_le _
  · obtain ⟨⟨name, payload⟩, _, rfl⟩ := Option.map_eq_some_iff.mp parsed
    exact Nat.zero_le _
  · obtain ⟨⟨name, payload⟩, _, rfl⟩ := Option.map_eq_some_iff.mp parsed
    exact Nat.zero_le _
  · exact batches _ (fun _ _ => rfl) parsed
  · exact batches _ (fun _ _ => rfl) parsed
  · obtain ⟨name, _, rfl⟩ := Option.map_eq_some_iff.mp parsed
    exact Nat.zero_le _
  · cases parsed

/-- The success bodies of requests on filters are short. -/
theorem Store.Accepts.short {store later : Store} {body : Bytes} {request : Request}
    (accepts : store.Accepts request body later) (few : request.payloads.length ≤ maxBatchItems) :
    body.length ≤ 2 + maxBatchItems := by
  cases accepts with
  | create free => exact Nat.zero_le _
  | drop present => exact Nat.zero_le _
  | add present => simp [maxBatchItems]
  | check present reports => simp [maxBatchItems]
  | madd present =>
    rw [length_countBytes, List.length_map]
    exact Nat.add_le_add_left few 2
  | mcheck present reports =>
    rw [length_countBytes, ← reports.length_eq]
    exact Nat.add_le_add_left few 2

/-- A reply reaches the client as it was made. -/
theorem settle_sent {reply : Reply} {start : Response} (later : Daemon) (fresh : start.header.status = Status.ok.code)
    (empty : start.body = []) (honest : reply.status = .ok → reply = .ok reply.body)
    (small : reply.body.length ≤ maxFrameBody) :
    (settle ((start.send reply).1, (start.send reply).2, later)).2.1.header.status = reply.status.code ∧
      (reply.status = .ok → (settle ((start.send reply).1, (start.send reply).2, later)).2.1.body = reply.body) := by
  cases reply with
  | ok body =>
    have fits : body.length ≤ maxFrameBody := small
    have appended : bufferAppend start.body body = (.ok (), body) := by
      rw [empty]
      exact bufferAppend_fits (by simpa using fits)
    simp only [Response.send, appended, settle]
    exact ⟨fresh, fun _ => rfl⟩
  | error status code message =>
    have bad : status ≠ .ok := by
      intro same
      cases honest same
    have shown : (start.send (.error status code message)).2.header.status = status.code := send_status _ fresh
    have failed : (start.send (.error status code message)).2.header.status ≠ Status.ok.code := by
      rw [shown]
      exact fun same => bad (Status.code_injective same)
    generalize start.send (.error status code message) = sent at shown failed
    refine ⟨?_, fun same => absurd same bad⟩
    cases outcome : sent.1 with
    | ok done => exact shown
    | error errno =>
      simp only [settle, if_neg failed]
      exact shown

/-- What one frame is answered, and what the filters are after it -/
theorem wp_dispatch_answers [Libm] (place : InPlace roots daemon world) (isolated : Isolated daemon world passed)
    (view : RequestView) (previous : Response) :
    wp (dispatch daemon view (previous.reset view.header.opcode view.header.requestId))
      (fun settled after => Store.Answers (view, settled.2.1) (daemon.store world) (settled.2.2.store after))
      (fun _ => True) world := by
  obtain ⟨added, serving⟩ := place
  rw [Response.reset_eq]
  have fresh : (Response.init view.header.opcode view.header.requestId).header.status = Status.ok.code := rfl
  have empty : (Response.init view.header.opcode view.header.requestId).body = [] := rfl
  generalize Response.init view.header.opcode view.header.requestId = start at fresh empty
  cases parsed : parseRequest view.header.opcode view.body with
  | some request =>
    unfold dispatch
    rw [serve_eq daemon _ parsed]
    apply wp_bind
    apply wp_bind
    apply (wp_handle_served serving isolated request (parseRequest_valid parsed)).mono _ fun _ held => held
    rintro ⟨reply, later⟩ after ⟨honest, serves⟩
    have small : reply.body.length ≤ maxFrameBody := by
      by_cases success : reply.status = .ok
      · have accepts := serves.accepts (congrArg Status.code success)
        have short := accepts.short (parseRequest_few parsed)
        simp only [maxFrameBody, maxBatchItems] at short ⊢
        omega
      · cases reply with
        | ok body => exact absurd rfl success
        | error status code message => exact Nat.zero_le _
    obtain ⟨status, body⟩ := settle_sent later fresh empty honest small
    apply (wp_pure _).mpr
    apply (wp_pure _).mpr
    rw [settle_daemon]
    apply (Store.answers_request parsed).mpr
    refine ⟨?_, ?_, ?_, ?_⟩
    · intro success
      rw [status] at success
      rw [body (Status.code_injective success)]
      exact serves.accepts success
    · exact fun bad => serves.refuses (status ▸ bad)
    · exact status ▸ serves.missing
    · exact fun taken => serves.taken (status ▸ taken)
  | none =>
    have unmoved : wp (dispatch daemon view start) (fun settled after => after = world ∧ daemon.Unmoved settled.2.2)
        (fun _ => True) world := by
      apply wp_bind
      apply (wp_serve_unparsed daemon start world parsed).mono _ fun _ _ => trivial
      rintro served after held
      apply (wp_pure _).mpr
      rw [settle_daemon]
      exact held
    constructor
    intro answers
    cases run : dispatch daemon view start world answers with
    | crashed after => trivial
    | returned settled after rest =>
      obtain ⟨rfl, lastIndex, same⟩ := unmoved.returned run
      apply (Store.answers_other parsed).mpr
      refine ⟨?_, ?_, ?_⟩
      · rw [same]
        rfl
      · intro opcode success
        have whole := dispatch_pure (by simp only [serve, opcode]; rfl) run
        rw [whole] at success ⊢
        exact lists_names serving fresh empty success
      · intro opcode name named
        have whole := dispatch_pure (by simp only [serve, opcode]; rfl) run
        rw [whole]
        exact info_status serving fresh named

end Frames

end Bloomd
