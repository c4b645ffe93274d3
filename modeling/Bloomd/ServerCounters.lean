import Bloomd.AnswerSemantics
import Bloomd.IsolationInvariant
import Bloomd.Server

/-! The counters of STATS over whole runs of the server. -/

namespace Bloomd

open CrashLogic Prog

/-- What a request does to the counters: those of the traffic stay, and those of the
filters follow the number of filters. -/
structure Daemon.Accounts (before after : Daemon) : Prop where
  requests : after.stats.requests = before.stats.requests
  responses : after.stats.responses = before.stats.responses
  errors : after.stats.errors = before.stats.errors
  filters :
    after.stats.filtersLoaded + after.stats.filtersCreated + before.stats.filtersDropped + before.set.items.length =
    before.stats.filtersLoaded + before.stats.filtersCreated + after.stats.filtersDropped + after.set.items.length

section Requests

variable {daemon middle later : Daemon} {world : World} {name : Bytes}

theorem Daemon.Accounts.refl (daemon : Daemon) : daemon.Accounts daemon := ⟨rfl, rfl, rfl, by omega⟩

theorem Daemon.Accounts.trans (first : daemon.Accounts middle) (second : middle.Accounts later) :
    daemon.Accounts later := by
  obtain ⟨requests, responses, errors, filters⟩ := first
  obtain ⟨requests', responses', errors', filters'⟩ := second
  exact ⟨requests'.trans requests, responses'.trans responses, errors'.trans errors, by omega⟩

/-- As many filters as before, and the same counters -/
theorem Daemon.Accounts.same (stats : later.stats = daemon.stats)
    (length : later.set.items.length = daemon.set.items.length) : daemon.Accounts later := by
  constructor <;> rw [stats]
  omega

theorem Daemon.Accounts.looked (daemon : Daemon) (name : Bytes) :
    daemon.Accounts { daemon with set := (daemon.set.findN name).2 } :=
  .same rfl (congrArg List.length FilterSet.findN_items)

theorem wp_withFilter_accounts (work : Filter → Sys (Reply × Filter)) :
    wp (withFilter daemon name work) (fun result _ => daemon.Accounts result.2) (fun _ => True) world := by
  have looked := Daemon.Accounts.looked daemon name
  unfold withFilter
  simp only
  split
  · exact (wp_pure _).mpr looked
  · split
    · exact (wp_pure _).mpr looked
    · apply wp_bind
      apply (wp_trivial _).mono _ fun _ held => held
      rintro ⟨reply, filter⟩ after _
      apply (wp_pure _).mpr
      refine Daemon.Accounts.same rfl ?_
      simp only [List.length_set, FilterSet.findN_items]

theorem wp_installFilter_accounts (filter : Filter) :
    wp (installFilter daemon filter) (fun result _ => daemon.Accounts result.2) (fun _ => True) world := by
  apply wp_bind
  apply (wp_trivial _).mono _ fun _ held => held
  intro written after _
  cases written with
  | error errno => exact (wp_pure _).mpr (.refl daemon)
  | ok done =>
    apply wp_bind
    apply (wp_filterSetAdd daemon.set filter after).mono _ fun _ _ => trivial
    rintro added last ⟨_, grown⟩
    cases added with
    | error errno =>
      apply wp_bind
      apply (wp_trivial _).mono _ fun _ held => held
      intro _ _ _
      apply wp_bind
      apply (wp_trivial _).mono _ fun _ held => held
      intro _ _ _
      apply wp_bind
      apply (wp_trivial _).mono _ fun _ held => held
      intro _ _ _
      exact (wp_pure _).mpr (.refl daemon)
    | ok set =>
      apply (wp_pure _).mpr
      have length : set.items.length = daemon.set.items.length + 1 := by
        rw [grown set rfl, List.length_append, List.length_singleton]
      refine ⟨rfl, rfl, rfl, ?_⟩
      simp only
      omega

theorem takeEmptyMap_accounts (daemon : Daemon) (capacity hashes valueSize : Nat) :
    daemon.Accounts (takeEmptyMap daemon capacity hashes valueSize).2 := by
  unfold takeEmptyMap
  split
  · split
    · exact ⟨rfl, rfl, rfl, rfl⟩
    · exact ⟨rfl, rfl, rfl, rfl⟩
  · exact ⟨rfl, rfl, rfl, rfl⟩

theorem wp_handleCreate_accounts [Libm] (request : CreateRequest) :
    wp (handleCreate daemon request) (fun result _ => daemon.Accounts result.2) (fun _ => True) world := by
  have looked := Daemon.Accounts.looked daemon request.name
  unfold handleCreate
  split
  · exact (wp_pure _).mpr (.refl daemon)
  split
  · exact (wp_pure _).mpr (.refl daemon)
  simp only
  split
  · exact (wp_pure _).mpr looked
  split
  · exact (wp_pure _).mpr looked
  rename_i metadata assigned
  have taken := looked.trans (takeEmptyMap_accounts { daemon with set := (daemon.set.findN request.name).2 }
    metadata.capacity metadata.hashes metadata.valueSize)
  generalize takeEmptyMap { daemon with set := (daemon.set.findN request.name).2 } metadata.capacity metadata.hashes
    metadata.valueSize = outcome at taken
  obtain ⟨pooled, middle⟩ := outcome
  cases pooled with
  | some map =>
    apply (wp_installFilter_accounts _).mono _ fun _ held => held
    exact fun _ _ installed => taken.trans installed
  | none =>
    apply wp_bind
    apply (wp_trivial _).mono _ fun _ held => held
    intro created after _
    cases created with
    | error failure =>
      simp only
      split
      · exact (wp_pure _).mpr taken
      · exact (wp_pure _).mpr taken
    | ok map =>
      apply (wp_installFilter_accounts _).mono _ fun _ held => held
      exact fun _ _ installed => taken.trans installed

/-- The removal of a name that the set has -/
theorem wp_filterSetRemoveN_length {set : FilterSet} {filter : Filter} (member : filter ∈ set.items)
    (matched : nameMatches filter.name name = true) : wp (filterSetRemoveN set name)
      (fun result _ => result.2.items.length + 1 = set.items.length) (fun _ => True) world := by
  unfold filterSetRemoveN
  split
  · rename_i unlocated
    rw [List.findIdx?_eq_none_iff.mp unlocated filter member] at matched
    cases matched
  · rename_i index located
    obtain ⟨inside, _⟩ := List.findIdx?_eq_some_iff_getElem.mp located
    rw [List.getElem?_eq_getElem inside]
    apply wp_bind
    apply (wp_trivial _).mono _ fun _ held => held
    intro _ _ _
    apply (wp_pure _).mpr
    simp only [List.length_eraseIdx_of_lt inside]
    omega

theorem wp_handleDrop_accounts :
    wp (handleDrop daemon name) (fun result _ => daemon.Accounts result.2) (fun _ => True) world := by
  have looked := Daemon.Accounts.looked daemon name
  unfold handleDrop
  split
  · exact (wp_pure _).mpr (.refl daemon)
  · simp only
    split
    · exact (wp_pure _).mpr looked
    · rename_i index located
      obtain ⟨filter, found, matched⟩ := FilterSet.findN_some located
      rw [FilterSet.findN_items, found]
      apply wp_bind
      apply (wp_trivial _).mono _ fun _ held => held
      intro removed after _
      cases removed with
      | error reply => exact (wp_pure _).mpr looked
      | ok done =>
        apply wp_bind
        have member : filter ∈ (daemon.set.findN name).2.items := by
          rw [FilterSet.findN_items]
          exact List.mem_of_getElem? found
        apply (wp_filterSetRemoveN_length member matched).mono _ fun _ held => held
        rintro ⟨_, set⟩ last length
        apply (wp_pure _).mpr
        rw [FilterSet.findN_items] at length
        simp only at length
        refine ⟨rfl, rfl, rfl, ?_⟩
        simp only
        omega

theorem wp_sending_accounts {response : Response} {work : Sys (Reply × Daemon)}
    (works : wp work (fun result _ => daemon.Accounts result.2) (fun _ => True) world) :
    wp (sending response work) (fun served _ => daemon.Accounts served.2.2) (fun _ => True) world := by
  apply wp_bind
  apply works.mono _ fun _ held => held
  exact fun _ _ accounts => (wp_pure _).mpr accounts

theorem wp_serve_accounts [Libm] (view : RequestView) (response : Response) :
    wp (serve daemon view response) (fun served _ => daemon.Accounts served.2.2) (fun _ => True) world := by
  have same : ∀ {reply : Reply}, wp (pure (reply, daemon) : Sys (Reply × Daemon))
      (fun result _ => daemon.Accounts result.2) (fun _ => True) world :=
    (wp_pure _).mpr (.refl daemon)
  have adding : ∀ isAdd, wp (sending response (handleAddCheckBody daemon view.body isAdd))
      (fun served _ => daemon.Accounts served.2.2) (fun _ => True) world := by
    intro isAdd
    apply wp_sending_accounts
    unfold handleAddCheckBody handleAddCheck
    split
    · exact same
    · split
      · exact same
      · exact wp_withFilter_accounts _
  have batch : ∀ isAdd, wp (sending response (handleBatchBody daemon view.body isAdd))
      (fun served _ => daemon.Accounts served.2.2) (fun _ => True) world := by
    intro isAdd
    apply wp_sending_accounts
    unfold handleBatchBody
    split
    · split
      · exact same
      · exact same
    · exact wp_withFilter_accounts _
  unfold serve
  split
  · exact (wp_pure _).mpr (.refl daemon)
  · apply wp_sending_accounts
    unfold handleCreateBody
    split
    · exact same
    · exact wp_handleCreate_accounts _
  · exact adding true
  · exact adding false
  · exact batch true
  · exact batch false
  · apply (wp_pure _).mpr
    obtain ⟨lastIndex, unmoved⟩ := unmoved_handleInfo daemon view.body response
    rw [unmoved]
    exact .same rfl rfl
  · exact (wp_pure _).mpr (.refl daemon)
  · apply wp_sending_accounts
    unfold handleDropBody
    split
    · exact same
    · exact wp_handleDrop_accounts
  · exact (wp_pure _).mpr (.refl daemon)
  · exact wp_sending_accounts same

theorem wp_dispatch_accounts [Libm] (view : RequestView) (response : Response) :
    wp (dispatch daemon view response) (fun settled _ => daemon.Accounts settled.2.2) (fun _ => True) world := by
  apply wp_bind
  apply (wp_serve_accounts view response).mono _ fun _ held => held
  intro served after accounts
  apply (wp_pure _).mpr
  rw [settle_daemon]
  exact accounts

end Requests

section Traffic

variable {client later : Client} {socket after : Socket} {daemon last : Daemon} {world : World}

/-- How many responses a client is waiting for -/
def Client.owed (client : Client) : Nat := if client.state = .writeResponse then 1 else 0

/-- What one turn of a client does to the counters: every new request is answered,
being answered or lost, and only a request can be an error. -/
structure Tallied (client : Client) (socket : Socket) (daemon : Daemon) (later : Client) (after : Socket)
    (last : Daemon) : Prop where
  requests : last.stats.requests + daemon.stats.responses + client.owed =
    daemon.stats.requests + last.stats.responses + later.owed + if Server.lost client later socket after then 1 else 0
  errors : last.stats.errors + daemon.stats.requests ≤ daemon.stats.errors + last.stats.requests
  filters :
    last.stats.filtersLoaded + last.stats.filtersCreated + daemon.stats.filtersDropped + daemon.set.items.length =
    daemon.stats.filtersLoaded + daemon.stats.filtersCreated + last.stats.filtersDropped + last.set.items.length

/-- A turn without a dispatch and without a response -/
theorem Tallied.idle (same : later.owed = client.owed) (unlost : Server.lost client later socket after = false) :
    Tallied client socket daemon later after daemon := by
  refine ⟨?_, by omega, by omega⟩
  rw [same, unlost]
  simp

theorem driveWrite_tallied (state : client.state = .writeResponse) (transfers : List Transfer) :
    Tallied client socket daemon (closeFailed (driveWrite client socket daemon transfers)).1
      (closeFailed (driveWrite client socket daemon transfers)).2.1
      (closeFailed (driveWrite client socket daemon transfers)).2.2 := by
  have owed : client.owed = 1 := if_pos state
  unfold driveWrite
  generalize writeSome client transfers client.writeOffset socket.outgoing = outcome
  obtain ⟨code, writeOffset, outgoing⟩ := outcome
  cases code with
  | error errno =>
    refine ⟨?_, by simp only [closeFailed]; omega, by simp only [closeFailed]⟩
    rw [owed]
    simp [closeFailed, Client.owed, Server.lost, Client.closed, state]
  | ok done =>
    cases done with
    | false =>
      apply Tallied.idle
      · rfl
      · simp [closeFailed, Server.lost, state]
    | true =>
      refine ⟨?_, by simp only [closeFailed]; omega, by simp only [closeFailed]⟩
      rw [owed]
      simp [closeFailed, Client.owed, Server.lost, Client.resetRequest]
      omega

theorem wp_dispatchRequest_tallied [Libm] (body : Bytes) (state : client.state ≠ .writeResponse) :
    wp (dispatchRequest client socket daemon body) (fun result _ => result.1 ≠ .ok true ∧
      Tallied client socket daemon (closeFailed result).1 (closeFailed result).2.1 (closeFailed result).2.2)
      (fun _ => True) world := by
  have owed : client.owed = 0 := if_neg state
  unfold dispatchRequest
  split
  · rename_i sized
    apply wp_bind
    apply (wp_dispatch_accounts _ _).mono _ fun _ held => held
    rintro ⟨result, response, last⟩ after ⟨requests, responses, errors, filters⟩
    simp only at requests responses errors filters
    cases result with
    | error errno =>
      apply (wp_pure _).mpr
      refine ⟨(by intro finished; cases finished), ?_, ?_, ?_⟩
      · rw [owed]
        simp [closeFailed, Client.owed, Server.lost, Client.closed, requests, responses]
        omega
      · simp only [closeFailed]
        omega
      · simp only [closeFailed]
        omega
    | ok done =>
      apply (wp_pure _).mpr
      refine ⟨fun finished => Bool.noConfusion (Except.ok.inj finished), ?_, ?_, ?_⟩
      · rw [owed]
        simp only [closeFailed, Client.prepareWrite, Client.owed, Server.lost]
        split <;> simp [requests, responses] <;> omega
      · simp only [closeFailed]
        split
        · simp only
          omega
        · omega
      · simp only [closeFailed]
        split
        · exact filters
        · exact filters
  · apply (wp_pure _).mpr
    refine ⟨(by intro finished; cases finished), Tallied.idle ?_ ?_⟩
    · rw [owed]
      rfl
    · simp [closeFailed, Server.lost, Client.closed, state]

theorem wp_driveRead_tallied [Libm] (transfers : List Transfer) (state : client.state ≠ .writeResponse) :
    wp (driveRead client socket daemon transfers) (fun result _ => result.1 ≠ .ok true ∧
      Tallied client socket daemon (closeFailed result).1 (closeFailed result).2.1 (closeFailed result).2.2)
      (fun _ => True) world := by
  have unread : ∀ {later : Client} {peer : Socket} {errno : Errno}, peer.dispatched = socket.dispatched →
      (Except.error errno : Except Errno Bool) ≠ .ok true ∧
        Tallied client socket daemon (closeFailed (.error errno, later, peer, daemon)).1
          (closeFailed (.error errno, later, peer, daemon)).2.1
            (closeFailed (.error errno, later, peer, daemon)).2.2 := by
    intro later peer errno same
    refine ⟨nofun, Tallied.idle ?_ ?_⟩
    · exact (if_neg state).symm
    · simp [closeFailed, Server.lost, state, same]
  have waits : ∀ {later : Client} {peer : Socket}, later.state ≠ .empty → later.state ≠ .writeResponse →
      (Except.ok false : Except Errno Bool) ≠ .ok true ∧
        Tallied client socket daemon (closeFailed (.ok false, later, peer, daemon)).1
          (closeFailed (.ok false, later, peer, daemon)).2.1 (closeFailed (.ok false, later, peer, daemon)).2.2 := by
    intro later peer open' idle
    refine ⟨nofun, Tallied.idle ?_ ?_⟩
    · exact (if_neg idle).trans (if_neg state).symm
    · simp [closeFailed, Server.lost, open']
  have dispatches : ∀ (reading : Client) (peer : Socket) (body : Bytes), reading.state = client.state →
      peer.dispatched = socket.dispatched →
      wp (dispatchRequest reading peer daemon body) (fun result _ => result.1 ≠ .ok true ∧
        Tallied client socket daemon (closeFailed result).1 (closeFailed result).2.1 (closeFailed result).2.2)
        (fun _ => True) world := by
    intro reading peer body same sent
    apply (wp_dispatchRequest_tallied body (same ▸ state)).mono _ fun _ held => held
    rintro result after ⟨code, requests, errors, filters⟩
    refine ⟨code, ?_, errors, filters⟩
    have owed : reading.owed = client.owed := by rw [Client.owed, Client.owed, same]
    have lost : ∀ later after, Server.lost reading later peer after = Server.lost client later socket after := by
      intro later after
      rw [Server.lost, Server.lost, same, sent]
    rw [owed, lost] at requests
    exact requests
  unfold driveRead
  split
  · rename_i heading
    generalize readSome frameHeaderSize transfers client.reqHeader socket.incoming = outcome
    obtain ⟨code, reqHeader, incoming⟩ := outcome
    cases code with
    | error errno => exact (wp_pure _).mpr (unread rfl)
    | ok done =>
      cases done with
      | false =>
        apply (wp_pure _).mpr
        apply waits <;> simp [heading]
      | true =>
        simp only
        split
        · exact (wp_pure _).mpr (unread rfl)
        · split
          · exact dispatches _ _ _ rfl rfl
          · apply (wp_pure _).mpr
            apply waits <;> simp
  · rename_i receiving
    generalize readSome client.header.bodyLen.toNat transfers client.reqBody socket.incoming = outcome
    obtain ⟨code, reqBody, incoming⟩ := outcome
    cases code with
    | error errno => exact (wp_pure _).mpr (unread rfl)
    | ok done =>
      cases done with
      | false =>
        apply (wp_pure _).mpr
        apply waits <;> simp [receiving]
      | true => exact dispatches _ _ _ rfl rfl
  · exact dispatches _ _ _ rfl rfl

/-- What one turn of a client does to the counters -/
theorem wp_pollClient_tallied [Libm] (transfers : List Transfer) :
    wp (pollClient client socket daemon transfers)
      (fun result _ => Tallied client socket daemon result.1 result.2.1 result.2.2) (fun _ => True) world := by
  have onward : (client.state = .readHeader ∨ client.state = .readBody) →
      wp (pollClient client socket daemon transfers)
      (fun result _ => Tallied client socket daemon result.1 result.2.1 result.2.2) (fun _ => True) world := by
    intro idle
    have reading : client.state ≠ .writeResponse := by
      rcases idle with state | state
      · rw [state]
        exact ClientState.noConfusion
      · rw [state]
        exact ClientState.noConfusion
    rw [pollClient_reading daemon transfers idle]
    apply wp_bind
    apply (wp_driveRead_tallied transfers reading).mono _ fun _ held => held
    rintro ⟨code, later, peer, last⟩ after ⟨unfinished, tallied⟩
    simp only [if_neg fun both : code = .ok true ∧ later.state = .writeResponse => unfinished both.1]
    exact (wp_pure _).mpr tallied
  cases state : client.state with
  | empty =>
    simp only [pollClient, state]
    apply (wp_pure _).mpr
    apply Tallied.idle rfl
    simp [Server.lost, state]
  | writeResponse =>
    simp only [pollClient, state]
    exact (wp_pure _).mpr (driveWrite_tallied state transfers)
  | readHeader => exact onward (Or.inl state)
  | readBody => exact onward (Or.inr state)

end Traffic

section Load

variable {loading : Loading} {world : World}

/-- A load counts the filters that it adds, and nothing that a request would count. -/
structure Loading.Counts (loading : Loading) : Prop where
  loaded : loading.stats.filtersLoaded = loading.set.items.length
  created : loading.stats.filtersCreated = 0
  dropped : loading.stats.filtersDropped = 0
  requests : loading.stats.requests = 0
  responses : loading.stats.responses = 0
  errors : loading.stats.errors = 0

theorem Loading.Counts.looked (counts : loading.Counts) (name : Bytes) :
    Loading.Counts { loading with set := (loading.set.findN name).2 } := by
  refine ⟨?_, counts.created, counts.dropped, counts.requests, counts.responses, counts.errors⟩
  rw [FilterSet.findN_items]
  exact counts.loaded

theorem wp_quarantine_counts (path : Bytes) (counts : loading.Counts) :
    wp (quarantine path loading) (fun later _ => later.Counts) (fun _ => True) world := by
  apply wp_bind
  apply (wp_trivial _).mono _ fun _ held => held
  intro _ _ _
  exact (wp_pure _).mpr ⟨counts.loaded, counts.created, counts.dropped, counts.requests, counts.responses,
    counts.errors⟩

theorem wp_addLoaded_counts (record : FilterMeta) (map : Nat) (unpinOnError : Bool) (counts : loading.Counts) :
    wp (addLoaded loading record map unpinOnError) (fun result _ => result.2.Counts) (fun _ => True) world := by
  have cleans :
      ∀ failure world, wp (cleanupEntry record unpinOnError >>= fun _ => pure (Except.error failure, loading))
      (fun (result : Except Failure Unit × Loading) _ => result.2.Counts) (fun _ => True) world := by
    intro failure world
    apply wp_bind
    apply (wp_trivial _).mono _ fun _ held => held
    exact fun _ _ _ => (wp_pure _).mpr counts
  apply wp_bind
  apply (wp_trivial _).mono _ fun _ held => held
  rintro ⟨opened, filter⟩ after _
  cases opened with
  | error failure => exact cleans failure after
  | ok done =>
    apply wp_bind
    apply (wp_filterSetAdd loading.set filter after).mono _ fun _ _ => trivial
    rintro added last ⟨_, grown⟩
    cases added with
    | error errno => exact cleans _ last
    | ok set =>
      apply (wp_pure _).mpr
      refine ⟨?_, counts.created, counts.dropped, counts.requests, counts.responses, counts.errors⟩
      simp only [grown set rfl, List.length_append, List.length_singleton, counts.loaded]

theorem wp_admitLoaded_counts (path : Bytes) (record : FilterMeta) (map : Nat) (unpinOnError : Bool)
    (counts : loading.Counts) :
    wp (admitLoaded loading path record map unpinOnError) (fun result _ => result.2.Counts) (fun _ => True) world := by
  apply wp_bind
  apply (wp_trivial _).mono _ fun _ held => held
  intro checked after _
  cases checked with
  | error failure =>
    apply wp_bind
    apply (wp_trivial _).mono _ fun _ held => held
    exact fun _ _ _ => (wp_pure _).mpr counts
  | ok done =>
    have looked := counts.looked record.name
    simp only
    split
    · apply wp_bind
      apply (wp_quarantine_counts path looked).mono _ fun _ held => held
      intro later middle counted
      apply wp_bind
      apply (wp_trivial _).mono _ fun _ held => held
      exact fun _ _ _ => (wp_pure _).mpr counted
    · exact wp_addLoaded_counts record map unpinOnError looked

theorem wp_loadRecord_counts (env : Env) (config : Config) (path entryName : Bytes) (counts : loading.Counts) :
    wp (loadRecord env config path entryName loading) (fun result _ => result.2.Counts) (fun _ => True) world := by
  have quarantines : ∀ world, wp (quarantine path loading >>= fun loading => pure (Except.ok (), loading))
      (fun (result : Except Failure Unit × Loading) _ => result.2.Counts) (fun _ => True) world := by
    intro world
    apply wp_bind
    apply (wp_quarantine_counts path counts).mono _ fun _ held => held
    exact fun _ _ counted => (wp_pure _).mpr counted
  apply wp_bind
  apply (wp_trivial _).mono _ fun _ held => held
  intro read after _
  cases read with
  | error errno => exact quarantines after
  | ok record =>
    simp only
    split
    · exact quarantines after
    · split
      · exact (wp_pure _).mpr counts
      · apply wp_bind
        apply (wp_trivial _).mono _ fun _ held => held
        intro opened last _
        cases opened with
        | failed failure => exact (wp_pure _).mpr counts
        | stale => exact quarantines last
        | map record map unpinOnError => exact wp_admitLoaded_counts path record map unpinOnError counts

theorem wp_loadEntries_counts (env : Env) (config : Config) (entries : List Bytes) :
    ∀ {loading : Loading} {world : World},
    loading.Counts → wp (loadEntries env config entries loading) (fun result _ => result.2.Counts)
      (fun _ => True) world := by
  induction entries with
  | nil => exact fun counts => (wp_pure _).mpr counts
  | cons entry rest ih =>
    intro loading world counts
    have turn : wp (loadEntry env config entry loading) (fun result _ => result.2.Counts) (fun _ => True) world := by
      unfold loadEntry
      split
      · exact (wp_pure _).mpr counts
      · simp only
        split
        · exact (wp_pure _).mpr counts
        · split
          · exact (wp_pure _).mpr counts
          · exact wp_loadRecord_counts env config _ _ counts
    apply wp_bind
    apply turn.mono _ fun _ held => held
    rintro ⟨loaded, later⟩ after counted
    cases loaded with
    | error failure => exact (wp_pure _).mpr counted
    | ok done => exact ih counted

theorem wp_cleanupPins_counts (config : Config) (entries : List Bytes) : ∀ {loading : Loading} {world : World},
    loading.Counts → wp (cleanupPins config entries loading) (fun later _ => later.Counts) (fun _ => True) world := by
  induction entries with
  | nil => exact fun counts => (wp_pure _).mpr counts
  | cons entry rest ih =>
    intro loading world counts
    have looked := counts.looked entry
    unfold cleanupPins
    split
    · exact ih counts
    · simp only
      split
      · exact ih looked
      · split
        · exact ih looked
        · apply wp_bind
          apply (wp_trivial _).mono _ fun _ held => held
          intro removed after _
          cases removed with
          | error errno => exact ih looked
          | ok done => exact ih ⟨looked.loaded, looked.created, looked.dropped, looked.requests, looked.responses,
              looked.errors⟩

/-- A daemon that starts has counted its filters. -/
theorem wp_startup_counts (env : Env) (config : Config) : wp (startup env config)
    (fun result _ => ∀ daemon, result = .ok daemon → Loading.Counts ⟨daemon.set, daemon.stats⟩)
      (fun _ => True) world := by
  have fails : ∀ (set : FilterSet) (failure : Failure) (world : World),
      wp (filterSetFree set >>= fun _ => pure (Except.error failure))
        (fun (result : Except Failure Daemon) _ => ∀ daemon, result = .ok daemon →
          Loading.Counts ⟨daemon.set, daemon.stats⟩)
        (fun _ => True) world := by
    intro set failure world
    apply wp_bind
    apply (wp_trivial _).mono _ fun _ held => held
    exact fun _ _ _ => (wp_pure _).mpr nofun
  have fresh : Loading.Counts ⟨.init, .zero⟩ := ⟨rfl, rfl, rfl, rfl, rfl, rfl⟩
  have loads : wp (loadMetadataDir env config ⟨.init, .zero⟩) (fun result _ => result.2.Counts)
      (fun _ => True) world := by
    apply wp_bind
    apply (wp_trivial _).mono _ fun _ held => held
    intro listed after _
    cases listed with
    | error errno =>
      simp only
      split
      · exact (wp_pure _).mpr fresh
      · exact (wp_pure _).mpr fresh
    | ok entries => exact wp_loadEntries_counts env config entries fresh
  apply wp_bind
  apply loads.mono _ fun _ held => held
  rintro ⟨loaded, loading⟩ after counts
  cases loaded with
  | error failure => exact fails _ _ after
  | ok done =>
    have cleans : wp (cleanupOrphanPins env config loading) (fun result _ => result.2.Counts)
        (fun _ => True) after := by
      apply wp_bind
      apply (wp_trivial _).mono _ fun _ held => held
      intro listed last _
      cases listed with
      | error errno =>
        simp only
        split
        · exact (wp_pure _).mpr counts
        · exact (wp_pure _).mpr counts
      | ok entries =>
        apply wp_bind
        apply (wp_cleanupPins_counts config entries counts).mono _ fun _ held => held
        exact fun _ _ counted => (wp_pure _).mpr counted
    apply wp_bind
    apply cleans.mono _ fun _ held => held
    rintro ⟨cleaned, later⟩ last counted
    cases cleaned with
    | error errno => exact fails _ _ last
    | ok done =>
      apply (wp_pure _).mpr
      rintro daemon ⟨⟩
      exact counted

end Load

namespace Server

variable {config : Config} {server later : Server} {index : Nat}

/-- The connections whose response is still being written -/
def owed (server : Server) : Nat := (server.clients.map fun slot => slot.1.owed).sum

/-- The counters account for every filter and every request. -/
structure Balanced (server : Server) : Prop where
  filters : server.daemon.stats.filtersLoaded + server.daemon.stats.filtersCreated =
    server.daemon.stats.filtersDropped + server.daemon.set.items.length
  errors : server.daemon.stats.errors ≤ server.daemon.stats.requests
  requests : server.daemon.stats.requests = server.daemon.stats.responses + server.owed + server.abandoned

/-- A server whose filters are in their places and whose counters are right -/
structure Sound (config : Config) (server : Server) : Prop where
  place : InPlace config server.daemon server.world
  balanced : server.Balanced

end Server

theorem InPlace.counted {roots : Config} {daemon : Daemon} {world : World} (place : InPlace roots daemon world)
    (stats : Stats) : InPlace roots { daemon with stats } world := by
  obtain ⟨added, serving⟩ := place
  exact ⟨added, serving.config, serving.pool, serving.tended⟩

section Poll

variable {roots : Config} {client : Client} {socket : Socket} {daemon : Daemon} {world : World}

theorem wp_dispatchRequest_inPlace [Libm] (body : Bytes) (place : InPlace roots daemon world) :
    wp (dispatchRequest client socket daemon body) (fun result after => InPlace roots result.2.2.2 after)
      (fun _ => True) world := by
  unfold dispatchRequest
  split
  · apply wp_bind
    apply (wp_dispatch_handled (place.counted _) _ rfl).mono _ fun _ held => held
    rintro ⟨result, response, last⟩ after ⟨kept, _⟩
    cases result with
    | error errno => exact (wp_pure _).mpr kept
    | ok done =>
      apply (wp_pure _).mpr
      simp only
      split
      · exact kept.counted _
      · exact kept
  · exact (wp_pure _).mpr place

theorem wp_driveRead_inPlace [Libm] (transfers : List Transfer) (place : InPlace roots daemon world) :
    wp (driveRead client socket daemon transfers) (fun result after => InPlace roots result.2.2.2 after)
      (fun _ => True) world := by
  unfold driveRead
  split
  · simp only
    split
    · exact (wp_pure _).mpr place
    · exact (wp_pure _).mpr place
    · split
      · exact (wp_pure _).mpr place
      · split
        · exact wp_dispatchRequest_inPlace _ place
        · exact (wp_pure _).mpr place
  · simp only
    split
    · exact (wp_pure _).mpr place
    · exact (wp_pure _).mpr place
    · exact wp_dispatchRequest_inPlace _ place
  · exact wp_dispatchRequest_inPlace _ place

theorem driveWrite_inPlace (transfers : List Transfer) (place : InPlace roots daemon world) :
    InPlace roots (driveWrite client socket daemon transfers).2.2.2 world := by
  unfold driveWrite
  simp only
  split
  · exact place
  · exact place
  · exact place.counted _

theorem closeFailed_daemon (result : Except Errno Bool × Client × Socket × Daemon) :
    (closeFailed result).2.2 = result.2.2.2 := by
  obtain ⟨code, later, peer, last⟩ := result
  cases code <;> rfl

theorem wp_pollClient_inPlace [Libm] (transfers : List Transfer) (place : InPlace roots daemon world) :
    wp (pollClient client socket daemon transfers) (fun result after => InPlace roots result.2.2 after) (fun _ => True)
      world := by
  unfold pollClient
  split
  · exact (wp_pure _).mpr place
  · apply (wp_pure _).mpr
    rw [closeFailed_daemon]
    exact driveWrite_inPlace transfers place
  · apply wp_bind
    apply (wp_driveRead_inPlace transfers place).mono _ fun _ held => held
    rintro ⟨code, later, peer, last⟩ after kept
    simp only
    split
    · apply (wp_pure _).mpr
      rw [closeFailed_daemon]
      exact driveWrite_inPlace transfers kept
    · apply (wp_pure _).mpr
      rw [closeFailed_daemon]
      exact kept

end Poll

theorem wp_syncFilters_length (now : Nat) (force : Bool) (items : List Filter) : ∀ {world : World},
    wp (syncFilters now force items) (fun later _ => later.length = items.length) (fun _ => True) world := by
  induction items with
  | nil => exact (wp_pure _).mpr rfl
  | cons filter rest ih =>
    intro world
    apply wp_bind
    apply (wp_trivial _).mono _ fun _ held => held
    intro synced after _
    apply wp_bind
    apply ih.mono _ fun _ held => held
    intro later last length
    apply (wp_pure _).mpr
    simp only [List.length_cons, length]

theorem wp_syncDirtyLogs_inPlace {roots : Config} {daemon : Daemon} {world : World} (now : Nat) (force : Bool)
    (place : InPlace roots daemon world) : wp (syncDirtyLogs daemon.set now force)
      (fun set after => InPlace roots { daemon with set } after ∧ set.items.length = daemon.set.items.length)
      (fun _ => True) world := by
  obtain ⟨added, serving⟩ := place
  have same : wp (syncDirtyLogs daemon.set now force)
      (fun set _ => set.items.length = daemon.set.items.length) (fun _ => True) world := by
    apply wp_bind
    apply (wp_syncFilters_length now force daemon.set.items).mono _ fun _ held => held
    exact fun _ _ length => (wp_pure _).mpr length
  apply ((wp_syncDirtyLogs serving (fun _ _ _ => trivial) now force).and same).mono _ fun _ _ => trivial
  rintro set after ⟨still, length⟩
  exact ⟨⟨added, still⟩, length⟩

/-- A sum over a list in which one element is replaced -/
theorem sum_map_set {α : Type} (weigh : α → Nat) {items : List α} {index : Nat} {old : α}
    (found : items[index]? = some old)
    (new : α) : ((items.set index new).map weigh).sum + weigh old = (items.map weigh).sum + weigh new := by
  induction items generalizing index with
  | nil => cases found
  | cons head rest ih =>
    cases index with
    | zero =>
      obtain rfl := Option.some.inj found
      simp only [List.set_cons_zero, List.map_cons, List.sum_cons]
      omega
    | succ index =>
      have further := ih (found : rest[index]? = some old)
      simp only [List.set_cons_succ, List.map_cons, List.sum_cons]
      omega

namespace Server

variable {config : Config} {server later : Server} {index : Nat}

theorem Balanced.accept (balanced : server.Balanced) (stream : Bytes) (usable : Bool) :
    (server.accept stream usable).Balanced := by
  unfold Server.accept
  split
  · exact balanced
  · rename_i index free
    obtain ⟨inside, empty, _⟩ := List.findIdx?_eq_some_iff_getElem.mp free
    split
    · refine ⟨balanced.filters, balanced.errors, ?_⟩
      have replaced := sum_map_set (fun slot : Client × Socket => slot.1.owed) (List.getElem?_eq_getElem inside)
        (accepted stream)
      have unowed : (server.clients[index]).1.owed = 0 := by
        rw [Client.owed, of_decide_eq_true empty]
        rfl
      have fresh : (accepted stream).1.owed = 0 := rfl
      have requests := balanced.requests
      rw [unowed, fresh] at replaced
      simp only [owed] at requests ⊢
      omega
    · exact balanced

theorem Balanced.close (balanced : server.Balanced) (index : Nat) : (server.close index).Balanced := by
  unfold Server.close
  split
  · exact balanced
  · rename_i client socket found
    refine ⟨balanced.filters, balanced.errors, ?_⟩
    have replaced := sum_map_set (fun slot : Client × Socket => slot.1.owed) found (.closed, socket)
    have closed : Client.closed.owed = 0 := rfl
    have requests := balanced.requests
    have owed : client.owed = if client.state = .writeResponse then 1 else 0 := rfl
    simp only [closed] at replaced
    simp only [Server.owed, ← owed] at requests ⊢
    omega

/-- What one event keeps -/
theorem Sound.step [Libm] (sound : server.Sound config) {event : Event} (stepped : server.step event = some later) :
    later.Sound config := by
  obtain ⟨place, balanced⟩ := sound
  cases event with
  | accept stream usable =>
    obtain rfl := Option.some.inj stepped
    refine ⟨?_, balanced.accept stream usable⟩
    unfold Server.accept
    split
    · exact place
    · split
      · exact place.counted _
      · exact place
  | close index =>
    obtain rfl := Option.some.inj stepped
    refine ⟨?_, balanced.close index⟩
    unfold Server.close
    split
    · exact place
    · exact place
  | poll index transfers answers =>
    simp only [Server.step, Server.poll] at stepped
    split at stepped
    · obtain rfl := Option.some.inj stepped
      exact ⟨place, balanced⟩
    · rename_i client socket found
      split at stepped
      · cases stepped
      · rename_i last peer daemon world rest run
        obtain rfl := Option.some.inj stepped
        refine ⟨(wp_pollClient_inPlace transfers place).returned run, ?_⟩
        obtain ⟨requests, errors, filters⟩ := (wp_pollClient_tallied transfers).returned run
        have replaced := sum_map_set (fun slot : Client × Socket => slot.1.owed) found (last, peer)
        obtain ⟨filled, wrong, answered⟩ := balanced
        simp only at requests errors filters replaced
        constructor
        · simp only
          omega
        · simp only
          omega
        · simp only [owed] at answered ⊢
          omega
  | sync now force answers =>
    simp only [Server.step, Server.sync] at stepped
    split at stepped
    · cases stepped
    · rename_i set world rest run
      obtain rfl := Option.some.inj stepped
      obtain ⟨kept, length⟩ := (wp_syncDirtyLogs_inPlace now force place).returned run
      refine ⟨kept, ?_, balanced.errors, balanced.requests⟩
      simp only [length]
      exact balanced.filters

theorem Reached.sound [Libm] (reached : Reached config server) : server.Sound config := by
  induction reached with
  | start started =>
    rename_i env world loaded daemon answers rest
    refine ⟨(startup_inPlace started).1, ?_⟩
    have counts := (wp_startup_counts env config).returned started daemon rfl
    have unowed : (Server.start daemon loaded).owed = 0 := by
      simp [Server.owed, Server.start, Client.owed, Client.closed]
    obtain ⟨loadedCount, created, dropped, requests, responses, errors⟩ := counts
    simp only at loadedCount created dropped requests responses errors
    constructor
    · simp only [Server.start]
      omega
    · simp only [Server.start]
      omega
    · rw [unowed]
      simp only [Server.start]
      omega
  | next reached stepped ih => exact ih.step stepped

/-- What a STATS reply says about the filters adds up, in the 32 bits of its fields. -/
theorem statsReply_adds (daemon : Daemon) :
    (daemon.statsReply.metadataOnlyFilters + daemon.statsReply.durableFilters) % 2 ^ 32 =
      daemon.statsReply.filterCount ∧
      (daemon.set.items.length < 2 ^ 32 →
        daemon.statsReply.metadataOnlyFilters + daemon.statsReply.durableFilters = daemon.statsReply.filterCount) := by
  have split := List.length_eq_length_filter_add (l := daemon.set.items) fun filter => filter.metadata.hasData
  simp only [Daemon.statsReply]
  constructor
  · omega
  · intro few
    omega

/-- The counters of STATS account for every filter and every request, in every state
that the server can come to. -/
theorem counters_account [Libm] (reached : Reached config server) :
    (server.daemon.stats.filtersLoaded + server.daemon.stats.filtersCreated -
      server.daemon.stats.filtersDropped : Int) = server.daemon.set.items.length ∧
    server.daemon.stats.errors ≤ server.daemon.stats.requests ∧
    server.daemon.stats.requests = server.daemon.stats.responses + server.owed + server.abandoned ∧
    ∀ (stats : Stats) (view : RequestView) (previous response : Response) (answers rest : List Answer)
      (result : Except Errno Unit) (later : Daemon) (after : World), stats.Fits → view.header.opcode = 10 →
      dispatch { server.daemon with stats } view (previous.reset view.header.opcode view.header.requestId) server.world
        answers = .returned (result, response, later) after rest →
      response.header.status = Status.ok.code →
      ∃ reply, decodeStats response.body = some reply ∧ reply.filterCount = server.daemon.set.items.length % 2 ^ 32 ∧
        (reply.metadataOnlyFilters + reply.durableFilters) % 2 ^ 32 = reply.filterCount ∧
        (server.daemon.set.items.length < 2 ^ 32 →
          reply.metadataOnlyFilters + reply.durableFilters = reply.filterCount) := by
  obtain ⟨filters, errors, requests⟩ := reached.sound.balanced
  constructor
  · omega
  · constructor
    · exact errors
    · constructor
      · exact requests
      · intro stats view previous response answers rest result later after counts opcode returned success
        have decoded := dispatch_stats counts rfl rfl opcode returned success
        obtain ⟨wraps, adds⟩ := statsReply_adds { server.daemon with stats }
        exact ⟨_, decoded, rfl, wraps, adds⟩

theorem counters_account_ping : ∃ server, @Reached exactLibm demoRoots server ∧ server.daemon.stats.responses = 0 ∧
    server.owed = 1 ∧ server.abandoned = 0 ∧ server.daemon.stats.requests = 1 := by
  let listening := (start emptyDaemon .empty).accept pingStream true
  have started : startup .plain demoRoots .empty plenty = .returned (.ok emptyDaemon) .empty (plenty.drop 2) := rfl
  have polled : (@poll exactLibm listening 0 [.moved 40] []).map
      (fun server => (server.daemon.stats.responses, server.owed, server.abandoned)) = some (0, 1, 0) := by
    decide +kernel
  obtain ⟨server, stepped, facts⟩ := Option.map_eq_some_iff.mp polled
  simp only [Prod.mk.injEq] at facts
  obtain ⟨responses, owes, unlost⟩ := facts
  have reached : @Reached exactLibm demoRoots server := by
    apply @Reached.next exactLibm demoRoots listening server (.poll 0 [.moved 40] []) _ stepped
    exact @Reached.next exactLibm demoRoots _ listening (.accept pingStream true)
      (@Reached.start exactLibm _ _ _ _ _ _ _ started) rfl
  have account := (@counters_account demoRoots server exactLibm reached).2.2.1
  refine ⟨server, reached, responses, owes, unlost, ?_⟩
  omega

end Server

end Bloomd
