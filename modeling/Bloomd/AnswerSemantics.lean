import Bloomd.ControlSemantics

/-! What the client reads out of an answer is what the daemon put into it. -/

namespace Bloomd

open CrashLogic Prog Framing

/-- The widths of the fields of `struct bloomd_filter` -/
structure Filter.Fits (filter : Filter) : Prop where
  name : filter.name.length < maxNameLen + 1
  backend : filter.metadata.backend.length < 16
  digest : filter.metadata.digest.length < 32
  pinPath : filter.metadata.pinPath.length < pathMax
  capacity : filter.metadata.capacity < 2 ^ 64
  hashes : filter.metadata.hashes < 2 ^ 32
  valueSize : filter.metadata.valueSize < 2 ^ 32
  addCalls : filter.addCalls < 2 ^ 64
  checkCalls : filter.checkCalls < 2 ^ 64
  batchAddCalls : filter.batchAddCalls < 2 ^ 64
  batchCheckCalls : filter.batchCheckCalls < 2 ^ 64

/-- The widths of the fields of `struct bloomd_stats` -/
structure Stats.Fits (stats : Stats) : Prop where
  requests : stats.requests < 2 ^ 64
  responses : stats.responses < 2 ^ 64
  errors : stats.errors < 2 ^ 64
  acceptedConnections : stats.acceptedConnections < 2 ^ 64
  filtersLoaded : stats.filtersLoaded < 2 ^ 64
  filtersCreated : stats.filtersCreated < 2 ^ 64
  filtersDropped : stats.filtersDropped < 2 ^ 64
  orphanMeta : stats.orphanMeta < 2 ^ 64
  orphanPin : stats.orphanPin < 2 ^ 64
  emptyPoolHits : stats.emptyPoolHits < 2 ^ 64
  emptyPoolMisses : stats.emptyPoolMisses < 2 ^ 64

/-- What INFO means to say about a filter -/
def Filter.info (filter : Filter) : InfoReply where
  name := filter.name
  backend := filter.metadata.backend
  digest := filter.metadata.digest
  capacity := filter.metadata.capacity
  errorRate := filter.metadata.errorRate
  hashes := filter.metadata.hashes
  valueSize := filter.metadata.valueSize
  pinPath := filter.metadata.pinPath
  addCalls := filter.addCalls
  checkCalls := filter.checkCalls
  batchAddCalls := filter.batchAddCalls
  batchCheckCalls := filter.batchCheckCalls
  stateFlags := stateFlags filter.metadata

theorem stateFlags_lt (metadata : FilterMeta) : stateFlags metadata < 2 ^ 32 := by
  unfold stateFlags
  cases metadata.hasData <;> cases metadata.logClean <;> decide

/-- The bytes of an INFO answer, field by field -/
theorem flatten_infoPieces (filter : Filter) : (infoPieces filter).flatten = storeU16 filter.name.length ++
    (storeU16 filter.metadata.backend.length ++ (storeU16 filter.metadata.digest.length ++ (storeU16 0 ++
    (storeU64 filter.metadata.capacity ++ (storeDouble filter.metadata.errorRate ++
    (storeU32 filter.metadata.hashes ++ (storeU32 filter.metadata.valueSize ++ (storeU64 filter.addCalls ++
    (storeU64 filter.checkCalls ++ (storeU64 filter.batchAddCalls ++ (storeU64 filter.batchCheckCalls ++
    (storeU32 filter.metadata.pinPath.length ++ (storeU32 (stateFlags filter.metadata) ++
    (filter.name ++ (filter.metadata.backend ++ (filter.metadata.digest ++
      filter.metadata.pinPath)))))))))))))))) := by
  simp only [infoPieces, List.flatten_cons, List.flatten_nil, List.append_nil]

theorem decodeInfo_infoPieces {filter : Filter} (fits : filter.Fits) :
    decodeInfo (infoPieces filter).flatten = some filter.info := by
  obtain ⟨name, backend, digest, pinPath, capacity, hashes, valueSize, adds, checks, batchAdds, batchChecks⟩ := fits
  simp only [maxNameLen, pathMax] at name pinPath
  have flags := stateFlags_lt filter.metadata
  have size : (infoPieces filter).flatten.length = 72 + filter.name.length + filter.metadata.backend.length +
      filter.metadata.digest.length + filter.metadata.pinPath.length := by
    rw [flatten_infoPieces]
    simp only [List.length_append, length_storeU16, length_storeU32, length_storeU64, length_storeDouble]
    omega
  have texts : (infoPieces filter).flatten.drop 72 =
      filter.name ++ (filter.metadata.backend ++ (filter.metadata.digest ++ filter.metadata.pinPath)) := by
    rw [flatten_infoPieces]
    simp (disch := omega) only [drop_storeU16, drop_storeU32, drop_storeU64, drop_storeDouble, Nat.reduceSub,
      List.drop_zero]
  have backends : (infoPieces filter).flatten.drop (72 + filter.name.length) =
      filter.metadata.backend ++ (filter.metadata.digest ++ filter.metadata.pinPath) := by
    rw [← List.drop_drop, texts, List.drop_left]
  have digests : (infoPieces filter).flatten.drop (72 + filter.name.length + filter.metadata.backend.length) =
      filter.metadata.digest ++ filter.metadata.pinPath := by
    rw [← List.drop_drop, backends, List.drop_left]
  have pins : (infoPieces filter).flatten.drop (72 + filter.name.length + filter.metadata.backend.length +
      filter.metadata.digest.length) = filter.metadata.pinPath := by
    rw [← List.drop_drop, digests, List.drop_left]
  have lengths : loadU16 (infoPieces filter).flatten = filter.name.length ∧
      loadU16 ((infoPieces filter).flatten.drop 2) = filter.metadata.backend.length ∧
      loadU16 ((infoPieces filter).flatten.drop 4) = filter.metadata.digest.length ∧
      loadU32 ((infoPieces filter).flatten.drop 64) = filter.metadata.pinPath.length := by
    rw [flatten_infoPieces]
    simp (disch := omega) only [drop_storeU16, drop_storeU32, drop_storeU64, drop_storeDouble, Nat.reduceSub,
      List.drop_zero, loadU16_storeU16, loadU32_storeU32, and_self]
  have numbers : loadU64 ((infoPieces filter).flatten.drop 8) = filter.metadata.capacity ∧
      loadDouble ((infoPieces filter).flatten.drop 16) = filter.metadata.errorRate ∧
      loadU32 ((infoPieces filter).flatten.drop 24) = filter.metadata.hashes ∧
      loadU32 ((infoPieces filter).flatten.drop 28) = filter.metadata.valueSize ∧
      loadU32 ((infoPieces filter).flatten.drop 68) = stateFlags filter.metadata := by
    rw [flatten_infoPieces]
    simp (disch := omega) only [drop_storeU16, drop_storeU32, drop_storeU64, drop_storeDouble, Nat.reduceSub,
      List.drop_zero, loadU32_storeU32, loadU64_storeU64, loadDouble_storeDouble, and_self]
  have counters : loadU64 ((infoPieces filter).flatten.drop 32) = filter.addCalls ∧
      loadU64 ((infoPieces filter).flatten.drop 40) = filter.checkCalls ∧
      loadU64 ((infoPieces filter).flatten.drop 48) = filter.batchAddCalls ∧
      loadU64 ((infoPieces filter).flatten.drop 56) = filter.batchCheckCalls := by
    rw [flatten_infoPieces]
    simp (disch := omega) only [drop_storeU16, drop_storeU32, drop_storeU64, drop_storeDouble, Nat.reduceSub,
      List.drop_zero, loadU64_storeU64, and_self]
  unfold decodeInfo
  simp only [lengths, numbers, counters, texts, backends, digests, pins, size, List.take_left, List.take_length]
  rw [if_neg (by omega), if_neg (by omega)]
  rfl

/-- What STATS means to say: the counters, and the filters by their kind, counted
in 32 bits -/
def Daemon.statsReply (daemon : Daemon) : StatsReply where
  requests := daemon.stats.requests
  responses := daemon.stats.responses
  errors := daemon.stats.errors
  acceptedConnections := daemon.stats.acceptedConnections
  filtersLoaded := daemon.stats.filtersLoaded
  filtersCreated := daemon.stats.filtersCreated
  filtersDropped := daemon.stats.filtersDropped
  orphanMeta := daemon.stats.orphanMeta
  orphanPin := daemon.stats.orphanPin
  filterCount := daemon.set.items.length % 2 ^ 32
  metadataOnlyFilters := (daemon.set.items.filter fun filter => !filter.metadata.hasData).length % 2 ^ 32
  durableFilters := (daemon.set.items.filter fun filter => filter.metadata.hasData).length % 2 ^ 32
  emptyPoolHits := daemon.stats.emptyPoolHits
  emptyPoolMisses := daemon.stats.emptyPoolMisses

theorem countFilterStates_eq (filters : List Filter) :
    (countFilterStates filters).1 = (filters.filter fun filter => !filter.metadata.hasData).length ∧
      (countFilterStates filters).2.1 + (countFilterStates filters).2.2 =
        (filters.filter fun filter => filter.metadata.hasData).length := by
  induction filters with
  | nil => exact ⟨rfl, rfl⟩
  | cons filter rest ih =>
    simp only [countFilterStates, List.filter_cons]
    generalize countFilterStates rest = counts at ih ⊢
    obtain ⟨metadataOnly, durableClean, durableDirty⟩ := counts
    dsimp only at ih ⊢
    cases filter.metadata.hasData <;> cases filter.metadata.logClean <;>
      simp only [Bool.not_false, Bool.not_true, Bool.false_eq_true, ↓reduceIte, List.length_cons] <;>
      constructor <;> omega

/-- The bytes of a STATS answer, field by field -/
theorem flatten_statsPieces (set : FilterSet) (stats : Stats) : (statsPieces set stats).flatten =
    storeU64 stats.requests ++ (storeU64 stats.responses ++ (storeU64 stats.errors ++
    (storeU64 stats.acceptedConnections ++ (storeU64 stats.filtersLoaded ++ (storeU64 stats.filtersCreated ++
    (storeU64 stats.filtersDropped ++ (storeU64 stats.orphanMeta ++ (storeU64 stats.orphanPin ++
    (storeU32 set.items.length ++ (storeU32 (countFilterStates set.items).1 ++
    (storeU32 ((countFilterStates set.items).2.1 + (countFilterStates set.items).2.2) ++
    (storeU64 stats.emptyPoolHits ++ (storeU64 stats.emptyPoolMisses ++ []))))))))))))) := by
  simp only [statsPieces, List.flatten_cons, List.flatten_nil]

theorem decodeStats_statsPieces {daemon : Daemon} (fits : daemon.stats.Fits) :
    decodeStats (statsPieces daemon.set daemon.stats).flatten = some daemon.statsReply := by
  obtain ⟨requests, responses, errors, accepted, loaded, created, dropped, orphanMeta, orphanPin, hits, misses⟩ := fits
  obtain ⟨metadataOnly, durable⟩ := countFilterStates_eq daemon.set.items
  have size : (statsPieces daemon.set daemon.stats).flatten.length = 100 := by
    rw [flatten_statsPieces]
    simp only [List.length_append, length_storeU32, length_storeU64, List.length_nil]
  unfold decodeStats
  rw [size, flatten_statsPieces, metadataOnly, durable]
  simp (disch := omega) only [drop_storeU32, drop_storeU64, Nat.reduceSub, List.drop_zero, loadU64_storeU64,
    loadU32_storeU32_mod]
  rfl

/-- The bytes of the entries of a LIST answer -/
def namesBody (filters : List Filter) : Bytes :=
  (filters.map fun filter => storeU16 filter.name.length ++ filter.name).flatten

/-- Names with their lengths before them -/
def entriesBody (names : List Bytes) : Bytes := names.flatMap fun name => storeU16 name.length ++ name

theorem entriesBody_cons (name : Bytes) (rest : List Bytes) :
    entriesBody (name :: rest) = storeU16 name.length ++ (name ++ entriesBody rest) := by
  simp [entriesBody]

theorem namesBody_eq (filters : List Filter) : namesBody filters = entriesBody (filters.map Filter.name) := by
  rw [namesBody, entriesBody, List.flatMap_map]
  exact List.flatMap_def.symm

theorem length_namesBody (filters : List Filter) : 2 * filters.length ≤ (namesBody filters).length := by
  rw [namesBody_eq]
  induction filters with
  | nil => simp [entriesBody]
  | cons filter rest ih =>
    rw [List.map_cons, entriesBody_cons]
    simp only [List.length_cons, List.length_append, length_storeU16]
    omega

theorem decodeNames_entriesBody (names : List Bytes) : ∀ front : Bytes, (∀ name ∈ names, name.length < 2 ^ 16) →
    decodeNames (front ++ entriesBody names) names.length front.length =
      some (names, front.length + (entriesBody names).length) := by
  induction names with
  | nil =>
    intro front _
    simp [decodeNames, entriesBody]
  | cons name rest ih =>
    intro front short
    have here : (front ++ entriesBody (name :: rest)).drop front.length =
        storeU16 name.length ++ (name ++ entriesBody rest) := by
      rw [List.drop_left, entriesBody_cons]
    have text : (front ++ entriesBody (name :: rest)).drop (front.length + 2) = name ++ entriesBody rest := by
      rw [← List.drop_drop, here]
      exact drop_storeU16 _ _ (le_refl 2)
    have length : loadU16 (storeU16 name.length ++ (name ++ entriesBody rest)) = name.length :=
      loadU16_storeU16 _ (short name List.mem_cons_self)
    have total : (front ++ entriesBody (name :: rest)).length =
        front.length + 2 + name.length + (entriesBody rest).length := by
      rw [entriesBody_cons]
      simp only [List.length_append, length_storeU16]
      omega
    have later := ih (front ++ (storeU16 name.length ++ name)) fun other member =>
      short other (List.mem_cons_of_mem _ member)
    have ends : (front ++ (storeU16 name.length ++ name)).length = front.length + 2 + name.length := by
      simp only [List.length_append, length_storeU16]
      omega
    have whole : front ++ (storeU16 name.length ++ name) ++ entriesBody rest =
        front ++ entriesBody (name :: rest) := by
      rw [entriesBody_cons]
      simp
    rw [ends, whole] at later
    simp only [List.length_cons, decodeNames, here, length, text, total, later, List.take_left]
    rw [if_neg (by omega), if_neg (by omega)]
    congr 2
    rw [entriesBody_cons]
    simp only [List.length_append, length_storeU16]
    omega

theorem decodeList_entriesBody {names : List Bytes} (short : ∀ name ∈ names, name.length < 2 ^ 16)
    (few : names.length < 2 ^ 32) : decodeList (storeU32 names.length ++ entriesBody names) = some names := by
  have decoded := decodeNames_entriesBody names (storeU32 names.length) short
  rw [length_storeU32] at decoded
  unfold decodeList
  rw [loadU32_storeU32 _ few, decoded, List.length_append, length_storeU32, if_neg (by omega)]
  simp

theorem decodeList_namesBody {filters : List Filter} (short : ∀ filter ∈ filters, filter.name.length < 2 ^ 16)
    (few : filters.length < 2 ^ 32) :
    decodeList (storeU32 filters.length ++ namesBody filters) = some (filters.map Filter.name) := by
  have size : (filters.map Filter.name).length = filters.length := List.length_map _
  rw [namesBody_eq, ← size]
  apply decodeList_entriesBody _ (size ▸ few)
  intro name member
  obtain ⟨filter, inside, rfl⟩ := List.mem_map.mp member
  exact short filter inside

theorem decodeBatch_countBytes {results : Bytes} (few : results.length < 2 ^ 16) :
    decodeBatch (countBytes results) = some results := by
  have same : countBytes results = storeU16 results.length ++ results := rfl
  have length : loadU16 (storeU16 results.length ++ results) = results.length := loadU16_storeU16 _ few
  have rest : (storeU16 results.length ++ results).drop 2 = results := drop_storeU16 _ _ (le_refl 2)
  unfold decodeBatch
  rw [same, length, rest, List.length_append, length_storeU16, if_neg (by omega)]
  simp

section Answers

theorem send_error_status {start : Response} {reply : Reply}
    (fresh : start.header.status = Status.ok.code) (refused : reply.status ≠ .ok) :
    (start.send reply).2.header.status ≠ Status.ok.code := by
  rw [send_status _ fresh]
  intro same
  exact refused (Status.code_injective same)

theorem refused_of_parseNameRequest {operation : String} {body : Bytes} {reply : Reply}
    (refused : parseNameRequest operation body = .error reply) : reply.status ≠ .ok := by
  unfold parseNameRequest at refused
  split_ifs at refused <;> cases refused <;> simp [badRequest, Reply.status]

theorem info_answer {daemon : Daemon} {body : Bytes} {start : Response} (fresh : start.header.status = Status.ok.code)
    (empty : start.body = [])
    (success : (settle (handleInfo daemon body start)).2.1.header.status = Status.ok.code) :
    ∃ name index filter, parseNameRequest "INFO" body = .ok name ∧ (daemon.set.findN name).1 = some index ∧
      daemon.set.items[index]? = some filter ∧
      (settle (handleInfo daemon body start)).2.1.body = (infoPieces filter).flatten := by
  obtain ⟨fine, same, status⟩ := settle_success success
  rw [same]
  unfold handleInfo at fine status ⊢
  cases parsed : parseNameRequest "INFO" body with
  | error reply =>
    simp only [parsed] at status
    exact absurd status (send_error_status fresh
      (refused_of_parseNameRequest parsed))
  | ok name =>
    simp only [parsed] at fine status ⊢
    have items : (daemon.set.findN name).2.items = daemon.set.items := FilterSet.findN_items
    cases found : (daemon.set.findN name).1.bind fun index => (daemon.set.findN name).2.items[index]? with
    | none =>
      simp only [found] at status
      rw [Response.error_eq start .notFound .none (by decide)] at status
      have clash : Status.notFound.code = Status.ok.code := status
      exact absurd clash (by decide)
    | some filter =>
      obtain ⟨index, located, there⟩ := Option.bind_eq_some_iff.mp found
      rw [items] at there
      refine ⟨name, index, filter, rfl, located, there, ?_⟩
      simp only [found] at fine ⊢
      have whole := (bufferAppendEach_bounded (infoPieces filter) start.body (by simp [empty])).2
      generalize bufferAppendEach (infoPieces filter) start.body = outcome at fine whole ⊢
      rw [empty] at whole
      exact whole fine

theorem list_answer {set : FilterSet} {start : Response} (empty : start.body = [])
    (fine : (handleList set start).1 = .ok ()) :
    (handleList set start).2.body = storeU32 set.items.length ++ namesBody set.items ∧
      (handleList set start).2.body.length ≤ maxFrameBody := by
  have counted : bufferAppendU32 start.body set.items.length = (.ok (), storeU32 set.items.length) := by
    rw [empty]
    exact bufferAppend_fits (by simp [maxFrameBody])
  obtain ⟨bounded, whole⟩ := appendNames_bounded set.items (storeU32 set.items.length) (by simp [maxFrameBody])
  simp only [handleList, counted] at fine ⊢
  exact ⟨whole fine, bounded⟩

theorem stats_answer {daemon : Daemon} {start : Response} (empty : start.body = [])
    (fine : (handleStats daemon start).1 = .ok ()) :
    (handleStats daemon start).2.body = (statsPieces daemon.set daemon.stats).flatten := by
  have whole := (bufferAppendEach_bounded (statsPieces daemon.set daemon.stats) start.body (by simp [empty])).2
  unfold handleStats at fine ⊢
  generalize bufferAppendEach (statsPieces daemon.set daemon.stats) start.body = outcome at fine whole ⊢
  rw [empty] at whole
  exact whole fine

theorem dispatch_pure [Libm] {daemon : Daemon} {view : RequestView} {start : Response}
    {served : Except Errno Unit × Response × Daemon} {world : World} {answers : List Answer}
    {settled : Except Errno Unit × Response × Daemon} {after : World} {rest : List Answer}
    (serves : serve daemon view start = pure served)
    (returned : dispatch daemon view start world answers = .returned settled after rest) :
    settled = settle served := by
  unfold dispatch at returned
  rw [serves, pure_bind] at returned
  exact (Stop.returned.inj returned).1.symm

theorem batch_answer {daemon : Daemon} {body : Bytes} (isAdd : Bool) {start : Response}
    (fresh : start.header.status = Status.ok.code) (empty : start.body = []) :
    Returns (sending start (handleBatchBody daemon body isAdd)) fun served =>
      (settle served).2.1.header.status = Status.ok.code → ∃ batch results, parseBatch body = .ok batch ∧
        results.length = batch.itemCount ∧ (settle served).2.1.body = countBytes results ∧
        decodeBatch (settle served).2.1.body = some results := by
  apply returns_bind (returns_handleBatchBody daemon body isAdd)
  rintro ⟨reply, later⟩ answer
  apply returns_pure
  intro success
  obtain ⟨-, same, status⟩ := settle_success success
  rw [same]
  have shown : (start.send reply).2.header.status = reply.status.code := send_status _ fresh
  dsimp only at status
  rw [shown] at status
  cases reply with
  | error bad code message =>
    exact absurd (Status.code_injective status) answer.short.1
  | ok sent =>
    obtain ⟨batch, results, parsed, counted, few, rfl⟩ := answer.counted sent rfl
    have small : (countBytes results).length ≤ maxFrameBody := by
      rw [length_countBytes]
      simp only [maxBatchItems, maxFrameBody] at few ⊢
      omega
    have body : (start.send (.ok (countBytes results))).2.body = countBytes results := by
      rw [Response.send, bufferAppend_fits (by simpa [empty] using small), empty]
      rfl
    have decoded : decodeBatch (countBytes results) = some results := by
      apply decodeBatch_countBytes
      simp only [maxBatchItems] at few
      omega
    dsimp only
    rw [body]
    exact ⟨batch, results, parsed, counted, rfl, decoded⟩

theorem withoutBody_success {operation : String} {daemon : Daemon} {body : Bytes} {start : Response}
    {work : Response → Except Errno Unit × Response} (fresh : start.header.status = Status.ok.code)
    (success : (settle (withoutBody operation daemon body start work)).2.1.header.status = Status.ok.code) :
    (work start).1 = .ok () ∧
      (settle (withoutBody operation daemon body start work)).2.1 = (work start).2 := by
  obtain ⟨fine, same, status⟩ := settle_success success
  rw [same]
  unfold withoutBody at fine status ⊢
  by_cases empty : body.length ≠ 0
  · simp only [empty, ne_eq, not_false_eq_true, ↓reduceIte] at status
    exact absurd status (send_error_status fresh (by simp [badRequest, Reply.status]))
  · simp only [empty, ↓reduceIte] at fine ⊢
    exact ⟨fine, trivial⟩

theorem dispatch_stats [Libm] {daemon : Daemon} {view : RequestView} {start response : Response} {world after : World}
    {answers rest : List Answer} {result : Except Errno Unit} {later : Daemon} (counts : daemon.stats.Fits)
    (fresh : start.header.status = Status.ok.code) (empty : start.body = []) (opcode : view.header.opcode = 10)
    (returned : dispatch daemon view start world answers = .returned (result, response, later) after rest)
    (success : response.header.status = Status.ok.code) : decodeStats response.body = some daemon.statsReply := by
  have whole := dispatch_pure (by simp only [serve, opcode]; rfl) returned
  have shown : response = (settle (withoutBody "STATS" daemon view.body start (handleStats daemon))).2.1 :=
    congrArg (fun settled => settled.2.1) whole
  rw [shown] at success
  obtain ⟨fine, body⟩ := withoutBody_success fresh success
  rw [shown, body, stats_answer empty fine]
  exact decodeStats_statsPieces counts

/-- Whenever the daemon answers OK, the client's decoder of the operation accepts
the body and recovers what the daemon meant. -/
theorem answers_decode [Libm] (daemon : Daemon) (view : RequestView) (previous : Response) (world : World)
    (answers : List Answer) {result : Except Errno Unit} {response : Response} {later : Daemon} {after : World}
    {rest : List Answer} (fits : ∀ filter ∈ daemon.set.items, filter.Fits) (counts : daemon.stats.Fits)
    (returned : dispatch daemon view (previous.reset view.header.opcode view.header.requestId) world answers =
      .returned (result, response, later) after rest)
    (success : response.header.status = Status.ok.code) :
    (view.header.opcode = 7 → ∃ name index filter, parseNameRequest "INFO" view.body = .ok name ∧
      (daemon.set.findN name).1 = some index ∧ daemon.set.items[index]? = some filter ∧
      decodeInfo response.body = some filter.info) ∧
    (view.header.opcode = 8 → decodeList response.body = some (daemon.set.items.map Filter.name)) ∧
    (view.header.opcode = 10 → decodeStats response.body = some daemon.statsReply) ∧
    (view.header.opcode = 5 ∨ view.header.opcode = 6 → ∃ batch results, parseBatch view.body = .ok batch ∧
      results.length = batch.itemCount ∧ response.body = countBytes results ∧
      decodeBatch response.body = some results) := by
  have start : (previous.reset view.header.opcode view.header.requestId).header.status = Status.ok.code ∧
      (previous.reset view.header.opcode view.header.requestId).body = [] := ⟨rfl, rfl⟩
  generalize previous.reset view.header.opcode view.header.requestId = reset at returned start
  obtain ⟨fresh, empty⟩ := start
  refine ⟨fun opcode => ?_, fun opcode => ?_, fun opcode => ?_, fun opcode => ?_⟩
  · have whole := dispatch_pure (by simp only [serve, opcode]; rfl) returned
    have shown : response = (settle (handleInfo daemon view.body reset)).2.1 :=
      congrArg (fun settled => settled.2.1) whole
    rw [shown] at success
    obtain ⟨name, index, filter, parsed, located, there, body⟩ := info_answer fresh empty success
    refine ⟨name, index, filter, parsed, located, there, ?_⟩
    rw [shown, body]
    exact decodeInfo_infoPieces (fits filter (List.mem_of_getElem? there))
  · have whole := dispatch_pure (by simp only [serve, opcode]; rfl) returned
    have shown : response = (settle (withoutBody "LIST" daemon view.body reset (handleList daemon.set))).2.1 :=
      congrArg (fun settled => settled.2.1) whole
    rw [shown] at success
    obtain ⟨fine, body⟩ := withoutBody_success fresh success
    obtain ⟨listed, bounded⟩ := list_answer empty fine
    rw [shown, body, listed]
    rw [listed] at bounded
    apply decodeList_namesBody
    · intro filter member
      have short := (fits filter member).name
      simp only [maxNameLen] at short
      omega
    · have entries : 2 * daemon.set.items.length ≤ (namesBody daemon.set.items).length := length_namesBody _
      simp only [List.length_append, length_storeU32, maxFrameBody] at bounded
      omega
  · exact dispatch_stats counts fresh empty opcode returned success
  · have answered (isAdd : Bool) (serves : serve daemon view reset =
        sending reset (handleBatchBody daemon view.body isAdd)) :
        Returns (dispatch daemon view reset) fun settled => settled.2.1.header.status = Status.ok.code →
          ∃ batch results, parseBatch view.body = .ok batch ∧ results.length = batch.itemCount ∧
            settled.2.1.body = countBytes results ∧ decodeBatch settled.2.1.body = some results := by
      unfold dispatch
      rw [serves]
      apply returns_bind (batch_answer isAdd fresh empty)
      intro served held
      exact returns_pure held
    rcases opcode with opcode | opcode
    · exact (answered true (by simp only [serve, opcode]; rfl)).yields returned success
    · exact (answered false (by simp only [serve, opcode]; rfl)).yields returned success

def listView : RequestView := ⟨⟨protocolMagic, protocolVersion, 8, 0, 0, 7, 0⟩, [], List.length_nil⟩

theorem fits_oneFilter : ∀ filter ∈ oneFilter.set.items, filter.Fits := by
  intro filter member
  rw [List.mem_singleton.mp member]
  constructor <;> decide

theorem fits_zero : oneFilter.stats.Fits := by
  constructor <;> decide

theorem answers_decode_list : ∃ response later after,
    @dispatch exactLibm oneFilter listView ((Response.init 9 3).reset 8 7) .empty [] =
      .returned (.ok (), response, later) after [] ∧
    response.header.status = Status.ok.code ∧ decodeList response.body = some [bytes "x"] := by
  refine ⟨_, oneFilter, .empty, rfl, rfl, ?_⟩
  exact (@answers_decode exactLibm oneFilter listView (.init 9 3) .empty [] _ _ _ _ _ fits_oneFilter fits_zero
    rfl rfl).2.1 rfl

end Answers

end Bloomd
