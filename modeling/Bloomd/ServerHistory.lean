import Bloomd.Server
import Bloomd.StoreSemantics

/-! The server as its clients see it. Whatever the sockets do and whichever client is
served when, the answers are those of one store that was asked one request after another,
and each client gets the answers to its own requests, in their order. -/

namespace Bloomd

open CrashLogic Prog Framing

section Transfers

/-- What a client read, it could have read without trouble on its socket, unless that
trouble closes it. -/
theorem readSome_smooth (want : Nat) (transfers : List Transfer) : ∀ (buf incoming : Bytes) {full : Bool},
    (readSome want transfers buf incoming).1 = .ok full →
    ∃ smooth, (∀ transfer ∈ smooth, transfer.Smooth) ∧
      readSome want smooth buf incoming = readSome want transfers buf incoming := by
  induction transfers with
  | nil => exact fun buf incoming full _ => ⟨[], List.forall_mem_nil _, rfl⟩
  | cons transfer rest ih =>
    intro buf incoming full done
    by_cases enough : want ≤ buf.length
    · exact ⟨[], List.forall_mem_nil _, by simp [readSome, enough]⟩
    · simp only [readSome, enough, ↓reduceIte] at done ⊢
      cases transfer with
      | again => exact ⟨[.again], by simp [Transfer.Smooth.again], by simp [readSome, enough]⟩
      | interrupted =>
        obtain ⟨smooth, fine, same⟩ := ih buf incoming done
        refine ⟨.interrupted :: smooth, List.forall_mem_cons.mpr ⟨.interrupted, fine⟩, ?_⟩
        simp only [readSome, enough, ↓reduceIte, same]
      | failed errno =>
        simp only at done ⊢
        split at done
        · rename_i dry
          exact ⟨[.again], by simp [Transfer.Smooth.again], by simp [readSome, enough, dry]⟩
        · cases done
      | moved n =>
        simp only at done ⊢
        split at done
        · cases done
        · rename_i some
          split at done
          · rename_i dry
            refine ⟨[.moved n], by simpa using Transfer.Smooth.moved (Nat.pos_of_ne_zero some), ?_⟩
            simp [readSome, enough, some, dry]
          · rename_i wet
            obtain ⟨smooth, fine, same⟩ := ih _ _ done
            refine ⟨.moved n :: smooth, List.forall_mem_cons.mpr ⟨.moved (Nat.pos_of_ne_zero some), fine⟩, ?_⟩
            simp only [readSome, enough, some, wet, ↓reduceIte, same]

/-- What a client wrote, it could have written without trouble on its socket. -/
theorem writeSome_smooth (client : Client) (transfers : List Transfer) : ∀ (offset : Nat) (outgoing : Bytes),
    ∃ smooth, (∀ transfer ∈ smooth, transfer.Smooth) ∧
      (writeSome client smooth offset outgoing).2 = (writeSome client transfers offset outgoing).2 ∧
      ∃ full, (writeSome client smooth offset outgoing).1 = .ok full ∧
        ∀ full', (writeSome client transfers offset outgoing).1 = .ok full' → full' = full := by
  induction transfers with
  | nil =>
    intro offset outgoing
    exact ⟨[], List.forall_mem_nil _, rfl, _, rfl, fun full' same => (Except.ok.inj same).symm⟩
  | cons transfer rest ih =>
    intro offset outgoing
    by_cases whole : frameHeaderSize + client.response.body.length ≤ offset
    · refine ⟨[], List.forall_mem_nil _, by simp [writeSome, whole], true, by simp [writeSome, whole], ?_⟩
      intro full' same
      simp only [writeSome, whole, ↓reduceIte] at same
      exact (Except.ok.inj same).symm
    · have stops : ∀ code, (∀ full', code = .ok full' → full' = false) →
          writeSome client (transfer :: rest) offset outgoing = (code, offset, outgoing) →
          ∃ smooth, (∀ transfer ∈ smooth, transfer.Smooth) ∧
            (writeSome client smooth offset outgoing).2 = (writeSome client (transfer :: rest) offset outgoing).2 ∧
            ∃ full, (writeSome client smooth offset outgoing).1 = .ok full ∧
              ∀ full', (writeSome client (transfer :: rest) offset outgoing).1 = .ok full' → full' = full := by
        intro code halts same
        rw [same]
        exact ⟨[], List.forall_mem_nil _, rfl, false, by simp [writeSome, whole], halts⟩
      have unfinished : ∀ full', (.ok false : Except Errno Bool) = .ok full' → full' = false :=
        fun full' same => (Except.ok.inj same).symm
      have refused : ∀ (errno : Errno) (full' : Bool), (.error errno : Except Errno Bool) = .ok full' →
          full' = false := by
        intro errno full' impossible
        cases impossible
      cases transfer with
      | again => exact stops (.ok false) unfinished (by simp [writeSome, whole])
      | interrupted =>
        obtain ⟨smooth, fine, same, full, done, halts⟩ := ih offset outgoing
        refine ⟨smooth, fine, ?_, full, done, ?_⟩
        · rw [same]
          simp only [writeSome, whole, ↓reduceIte]
        · intro full' ended
          simp only [writeSome, whole, ↓reduceIte] at ended
          exact halts full' ended
      | failed errno =>
        by_cases dry : errno = .eagain
        · exact stops (.ok false) unfinished (by simp [writeSome, whole, dry])
        · exact stops (.error errno) (refused errno) (by simp [writeSome, whole, dry])
      | moved n =>
        by_cases none : ((client.pending offset).take n).length = 0
        · exact stops (.error .epipe) (refused .epipe) (by simp only [writeSome, whole, none, ↓reduceIte])
        · obtain ⟨smooth, fine, same, full, done, halts⟩ :=
            ih (offset + ((client.pending offset).take n).length) (outgoing ++ (client.pending offset).take n)
          have positive : 0 < n := by
            rw [List.length_take] at none
            omega
          refine ⟨.moved n :: smooth, List.forall_mem_cons.mpr ⟨.moved positive, fine⟩, ?_, full, ?_, ?_⟩
          · simp only [writeSome, whole, none, ↓reduceIte, same]
          · simp only [writeSome, whole, none, ↓reduceIte, done]
          · intro full' ended
            simp only [writeSome, whole, none, ↓reduceIte] at ended
            exact halts full' ended

end Transfers

section Connections

variable {stream : Bytes} {client later : Client} {socket peer : Socket} {daemon : Daemon} {world : World}

/-- The requests that were dispatched for a peer are the first frames that it sent, and it
was sent the front of their answers. -/
structure Conversed (stream : Bytes) (socket : Socket) : Prop where
  requests : socket.dispatched.map (fun served => (served.1.header, served.1.body)) <+: requestFrames stream
  sent : socket.outgoing <+: socket.dispatched.flatMap fun served => served.2.wire

theorem Tracks.conversed (tracks : Tracks stream client socket) : Conversed stream socket := by
  obtain ⟨read, held, order, whole, holds, split⟩ := tracks.received
  obtain ⟨owed, owes, sent⟩ := tracks.sent
  have parsed : frames frameHeaderSize announced stream =
      read ++ frames frameHeaderSize announced (held ++ socket.incoming) := by
    rw [split]
    exact frames_append (Nat.succ_pos _) read whole
  refine ⟨?_, owed, sent⟩
  rw [requestFrames, parsed, List.map_append, order]
  exact List.prefix_append _ _

/-- A connection that is followed, or one that was closed -/
inductive Conversing (stream : Bytes) (client : Client) (socket : Socket) : Prop where
  | followed (tracks : Tracks stream client socket) : Conversing stream client socket
  | closed (state : client.state = .empty) (conversed : Conversed stream socket) : Conversing stream client socket

theorem Conversing.conversed (conversing : Conversing stream client socket) : Conversed stream socket := by
  cases conversing with
  | followed tracks => exact tracks.conversed
  | closed state conversed => exact conversed

theorem Conversing.close (conversing : Conversing stream client socket) : Conversing stream .closed socket :=
  .closed rfl conversing.conversed

/-- Trouble on the socket ends the connection and leaves its record as it was. -/
theorem wp_driveRead_conversing [Libm] (transfers : List Transfer) (tracks : Tracks stream client socket)
    (reading : client.state = .readHeader ∨ client.state = .readBody) :
    wp (driveRead client socket daemon transfers) (fun result _ =>
      result.1 ≠ .ok true ∧ Conversing stream (closeFailed result).1 (closeFailed result).2.1)
      (fun _ => True) world := by
  obtain ⟨read, held, order, whole, holds, split⟩ := tracks.received
  obtain ⟨owed, owes, sent⟩ := tracks.sent
  have idle : client.state ≠ .writeResponse := by
    rcases reading with state | state <;> rw [state] <;> exact ClientState.noConfusion
  have settled : socket.outgoing = socket.dispatched.flatMap fun served => served.2.wire := by
    cases owes with
    | nothing _ => simpa using sent
    | rest busy _ => exact absurd busy idle
  have broken : ∀ (errno : Errno) (client : Client) (incoming : Bytes),
      wp (pure (.error errno, client, { socket with incoming }, daemon) : Sys
        (Except Errno Bool × Client × Socket × Daemon))
        (fun result _ => result.1 ≠ .ok true ∧ Conversing stream (closeFailed result).1 (closeFailed result).2.1)
        (fun _ => True) world := by
    intro errno client incoming
    refine (wp_pure _).mpr ⟨?_, .closed rfl ⟨tracks.conversed.requests, tracks.conversed.sent⟩⟩
    intro impossible
    cases impossible
  have opens : ∀ (smooth : List Transfer),
      wp (driveRead client socket daemon smooth) (fun result _ =>
        result.1 ≠ .ok true ∧ Tracks stream (closeFailed result).1 (closeFailed result).2.1) (fun _ => True) world →
      wp (driveRead client socket daemon smooth) (fun result _ =>
        result.1 ≠ .ok true ∧ Conversing stream (closeFailed result).1 (closeFailed result).2.1)
          (fun _ => True) world :=
    fun smooth drives => drives.mono (fun _ _ held => ⟨held.1, .followed held.2⟩) fun _ held => held
  cases holds with
  | answering state => exact absurd state idle
  | refused state _ _ _ =>
    rcases reading with other | other
    · rw [state] at other
      cases other
    · rw [state] at other
      cases other
  | heading state cut =>
    cases code : (readSome frameHeaderSize transfers client.reqHeader socket.incoming).1 with
    | error errno =>
      unfold driveRead
      simp only [state, code]
      exact broken errno _ _
    | ok full =>
      obtain ⟨smooth, fine, same⟩ := readSome_smooth frameHeaderSize transfers client.reqHeader socket.incoming code
      have alike : driveRead client socket daemon transfers = driveRead client socket daemon smooth := by
        unfold driveRead
        simp only [state, same]
      rw [alike]
      exact opens smooth (wp_driveRead_heading daemon world fine state cut order whole split settled)
  | receiving state raw size parsed valid cut =>
    cases code : (readSome client.header.bodyLen.toNat transfers client.reqBody socket.incoming).1 with
    | error errno =>
      unfold driveRead
      simp only [state, code]
      exact broken errno _ _
    | ok full =>
      obtain ⟨smooth, fine, same⟩ :=
        readSome_smooth client.header.bodyLen.toNat transfers client.reqBody socket.incoming code
      have alike : driveRead client socket daemon transfers = driveRead client socket daemon smooth := by
        unfold driveRead
        simp only [state, same]
      rw [alike]
      exact opens smooth
        (wp_driveRead_receiving daemon world fine state size parsed valid cut order whole split settled)

theorem driveWrite_conversing (daemon : Daemon) (transfers : List Transfer) (state : client.state = .writeResponse)
    (tracks : Tracks stream client socket) :
    Conversing stream (closeFailed (driveWrite client socket daemon transfers)).1
      (closeFailed (driveWrite client socket daemon transfers)).2.1 := by
  obtain ⟨smooth, fine, same, full, done, halts⟩ :=
    writeSome_smooth client transfers client.writeOffset socket.outgoing
  have follows := driveWrite_tracks daemon fine state tracks
  cases code : (writeSome client transfers client.writeOffset socket.outgoing).1 with
  | ok full' =>
    have equal : writeSome client smooth client.writeOffset socket.outgoing =
        writeSome client transfers client.writeOffset socket.outgoing := by
      apply Prod.ext
      · rw [done, code, halts full' code]
      · exact same
    have alike : driveWrite client socket daemon transfers = driveWrite client socket daemon smooth := by
      unfold driveWrite
      rw [equal]
    rw [alike]
    exact .followed follows
  | error errno =>
    have sent : (closeFailed (driveWrite client socket daemon smooth)).2.1 =
        { socket with outgoing := (writeSome client transfers client.writeOffset socket.outgoing).2.2 } := by
      unfold driveWrite
      simp only [done, same]
      cases full <;> rfl
    have conversed := follows.conversed
    rw [sent] at conversed
    unfold driveWrite
    simp only [code]
    exact .closed rfl conversed

/-- What one turn of a client keeps of its connection, whatever happens on the socket -/
theorem wp_pollClient_conversing [Libm] (transfers : List Transfer) (conversing : Conversing stream client socket) :
    wp (pollClient client socket daemon transfers) (fun result _ => Conversing stream result.1 result.2.1)
      (fun _ => True) world := by
  have rests : client.state = .empty → wp (pollClient client socket daemon transfers)
      (fun result _ => Conversing stream result.1 result.2.1) (fun _ => True) world := by
    intro state
    simp only [pollClient, state]
    exact (wp_pure _).mpr conversing
  cases conversing with
  | closed state conversed => exact rests state
  | followed tracks =>
    have reads : (client.state = .readHeader ∨ client.state = .readBody) →
        wp (pollClient client socket daemon transfers)
        (fun result _ => Conversing stream result.1 result.2.1) (fun _ => True) world := by
      intro reading
      rw [pollClient_reading daemon transfers reading]
      apply wp_bind
      apply (wp_driveRead_conversing transfers tracks reading).mono _ fun _ held => held
      rintro ⟨code, later, peer, last⟩ after ⟨unfinished, held⟩
      simp only [if_neg fun both : code = .ok true ∧ later.state = .writeResponse => unfinished both.1]
      exact (wp_pure _).mpr held
    cases state : client.state with
    | empty => exact rests state
    | readHeader => exact reads (Or.inl state)
    | readBody => exact reads (Or.inr state)
    | writeResponse =>
      simp only [pollClient, state]
      exact (wp_pure _).mpr (driveWrite_conversing daemon transfers state tracks)

end Connections

/-- A daemon whose filters are in their places and share no map -/
structure Orderly (config : Config) (daemon : Daemon) (world : World) : Prop where
  place : InPlace config daemon world
  isolated : Isolated daemon world fun _ => none

/-- What a turn of a client does to the filters is explained by the requests that it had
dispatched, and their answers are well formed. -/
structure Carries (config : Config) (daemon : Daemon) (world : World) (socket peer : Socket) (later : Daemon)
    (after : World) : Prop where
  orderly : Orderly config later after
  served : ∃ entries, peer.dispatched = socket.dispatched ++ entries ∧
    Runs Store.Answers entries (daemon.store world) (later.store after) ∧ ∀ entry ∈ entries, entry.2.WellFormed entry.1

section Turns

variable {config : Config} {client : Client} {socket peer : Socket} {daemon later : Daemon} {world after : World}

theorem Orderly.counted (orderly : Orderly config daemon world) (stats : Stats) :
    Orderly config { daemon with stats } world :=
  ⟨orderly.place.counted stats, orderly.isolated.distinct, orderly.isolated.empty, orderly.isolated.pooled,
    orderly.isolated.fresh⟩

theorem wp_dispatch_formed [Libm] (view : RequestView) (previous : Response) :
    wp (dispatch daemon view (previous.reset view.header.opcode view.header.requestId))
      (fun settled _ => settled.2.1.WellFormed view) (fun _ => True) world :=
  ((returns_dispatch daemon view view.header.opcode view.header.requestId).wp world).mono
    (fun _ _ yields => wellFormed_of_settled yields.2) fun _ _ => trivial

theorem wp_dispatch_orderly [Libm] (orderly : Orderly config daemon world) (view : RequestView) (previous : Response) :
    wp (dispatch daemon view (previous.reset view.header.opcode view.header.requestId))
      (fun settled after => Orderly config settled.2.2 after ∧
        Store.Answers (view, settled.2.1) (daemon.store world) (settled.2.2.store after) ∧
        settled.2.1.WellFormed view) (fun _ => True) world := by
  have sound : Session.Sound config ⟨daemon, world, fun _ => none⟩ := ⟨orderly.place, orderly.isolated⟩
  apply ((wp_dispatch_sound sound view previous).and
    ((wp_dispatch_answers orderly.place orderly.isolated view previous).and
    (wp_dispatch_formed view previous))).mono _ fun _ _ => trivial
  rintro settled after ⟨⟨kept, _⟩, answers, formed⟩
  refine ⟨⟨kept.place, kept.isolated.distinct, kept.isolated.empty, kept.isolated.pooled, ?_⟩, answers, formed⟩
  intro filter member given impossible
  cases impossible

theorem Carries.idle (orderly : Orderly config daemon world) (same : peer.dispatched = socket.dispatched) :
    Carries config daemon world socket peer daemon world :=
  ⟨orderly, [], by rw [same, List.append_nil], .done _, List.forall_mem_nil _⟩

theorem Carries.counted (carries : Carries config daemon world socket peer later after) (stats : Stats) :
    Carries config daemon world socket peer { later with stats } after :=
  ⟨carries.orderly.counted stats, carries.served⟩

theorem wp_dispatchRequest_carries [Libm] (orderly : Orderly config daemon world) (body : Bytes) :
    wp (dispatchRequest client socket daemon body)
      (fun result after => Carries config daemon world socket result.2.2.1 result.2.2.2 after)
      (fun _ => True) world := by
  unfold dispatchRequest
  split
  · rename_i sized
    apply wp_bind
    apply (wp_dispatch_orderly (orderly.counted _) ⟨client.header, body, sized⟩ client.response).mono _
      fun _ held => held
    rintro ⟨result, response, last⟩ after ⟨kept, answers, formed⟩
    have carries : Carries config daemon world socket { socket with
        dispatched := socket.dispatched ++ [(⟨client.header, body, sized⟩, response)] } last after :=
      ⟨kept, _, rfl, .next answers (.done _), List.forall_mem_singleton.mpr formed⟩
    cases result with
    | error errno => exact (wp_pure _).mpr carries
    | ok done =>
      apply (wp_pure _).mpr
      simp only
      split
      · exact carries.counted _
      · exact carries
  · exact (wp_pure _).mpr (.idle orderly rfl)

theorem wp_driveRead_carries [Libm] (transfers : List Transfer) (orderly : Orderly config daemon world) :
    wp (driveRead client socket daemon transfers)
      (fun result after => Carries config daemon world socket result.2.2.1 result.2.2.2 after)
      (fun _ => True) world := by
  have moved : ∀ (client : Client) (incoming body : Bytes),
      wp (dispatchRequest client { socket with incoming } daemon body)
        (fun result after => Carries config daemon world socket result.2.2.1 result.2.2.2 after)
          (fun _ => True) world := by
    intro client incoming body
    apply (wp_dispatchRequest_carries orderly body).mono _ fun _ held => held
    exact fun result after carries => ⟨carries.orderly, carries.served⟩
  unfold driveRead
  split
  · simp only
    split
    · exact (wp_pure _).mpr (.idle orderly rfl)
    · exact (wp_pure _).mpr (.idle orderly rfl)
    · split
      · exact (wp_pure _).mpr (.idle orderly rfl)
      · split
        · exact moved _ _ _
        · exact (wp_pure _).mpr (.idle orderly rfl)
  · simp only
    split
    · exact (wp_pure _).mpr (.idle orderly rfl)
    · exact (wp_pure _).mpr (.idle orderly rfl)
    · exact moved _ _ _
  · exact wp_dispatchRequest_carries orderly _

theorem driveWrite_carries (transfers : List Transfer)
    (carries : Carries config daemon world socket peer later after) :
    Carries config daemon world socket (closeFailed (driveWrite client peer later transfers)).2.1
      (closeFailed (driveWrite client peer later transfers)).2.2 after := by
  have moved : ∀ outgoing, Carries config daemon world socket { peer with outgoing } later after :=
    fun outgoing => ⟨carries.orderly, carries.served⟩
  unfold driveWrite
  simp only
  split
  · exact moved _
  · exact moved _
  · exact (moved _).counted _

theorem wp_pollClient_carries [Libm] (transfers : List Transfer) (orderly : Orderly config daemon world) :
    wp (pollClient client socket daemon transfers)
      (fun result after => Carries config daemon world socket result.2.1 result.2.2 after) (fun _ => True) world := by
  unfold pollClient
  split
  · exact (wp_pure _).mpr (.idle orderly rfl)
  · exact (wp_pure _).mpr (driveWrite_carries transfers (.idle orderly rfl))
  · apply wp_bind
    apply (wp_driveRead_carries transfers orderly).mono _ fun _ held => held
    rintro ⟨code, later, peer, last⟩ after carries
    simp only
    split
    · exact (wp_pure _).mpr (driveWrite_carries transfers carries)
    · apply (wp_pure _).mpr
      cases code with
      | error errno => exact carries
      | ok full => exact carries

/-- Syncs are invisible to the clients. -/
theorem wp_syncDirtyLogs_orderly (orderly : Orderly config daemon world) (now : Nat) (force : Bool) :
    wp (syncDirtyLogs daemon.set now force)
      (fun set after => Orderly config { daemon with set } after ∧
        Daemon.store { daemon with set } after = daemon.store world) (fun _ => True) world := by
  obtain ⟨added, serving⟩ := orderly.place
  have follow : Keeps (Feeds nothing) (syncDirtyLogs daemon.set now force) fun set =>
      List.Forall₂ (Follows config) daemon.set.items set.items :=
    .bind (keeps_syncFilters now force fun filter member => (serving.tended.settled filter member).seated)
      fun _ held => .pure held
  apply ((wp_syncDirtyLogs serving (fun _ _ _ => trivial) now force).and (follow world)).mono _ fun _ _ => trivial
  rintro set after ⟨still, held, feeds⟩
  refine ⟨⟨⟨added, still⟩, orderly.isolated.synced held feeds⟩, ?_⟩
  exact @Daemon.store_follow daemon { daemon with set } world after config held fun filter member =>
    feeds.kept filter.mapFd

end Turns

namespace Server

/-- The requests of the peer in a slot that were dispatched -/
def dispatchedFor (server : Server) (index : Nat) : List (RequestView × Response) :=
  (server.clients[index]?.map fun slot => slot.2.dispatched).getD []

/-- The requests that an event had dispatched, each with its answer and the slot it was for -/
def dispatchedIn (server later : Server) : Event → List (Nat × (RequestView × Response))
  | .poll index _ _ => ((later.dispatchedFor index).drop (server.dispatchedFor index).length).map (index, ·)
  | .accept _ _ | .close _ | .sync _ _ _ => []

/-- What the peers of the slots send, after an event -/
def streamsAfter (server : Server) (streams : Nat → Bytes) : Event → Nat → Bytes
  | .accept stream usable =>
    match server.findFreeClient with
    | some index => if usable then Function.update streams index stream else streams
    | none => streams
  | .close _ | .poll _ _ _ | .sync _ _ _ => streams

/-- A run of the server from a startup with maps of their own, with what its clients know
of it: the store it began with, what the peer of each slot sends, and the requests that
were dispatched for all of them, in order. -/
inductive Recorded [Libm] (config : Config) :
    Store → Server → (Nat → Bytes) → List (Nat × (RequestView × Response)) → Prop where
  | start {env : Env} {world loaded : World} {daemon : Daemon} {answers rest : List Answer}
      (started : startup env config world answers = .returned (.ok daemon) loaded rest)
      (distinct : (daemon.set.items.map Filter.mapFd).Nodup)
      (empty : ∀ filter ∈ daemon.set.items, filter.metadata.hasData = false → loaded.contents filter.mapFd = []) :
      Recorded config (daemon.store loaded) (start daemon loaded) (fun _ => []) []
  | next {begun : Store} {server later : Server} {streams : Nat → Bytes}
      {history : List (Nat × (RequestView × Response))}
      {event : Event} (recorded : Recorded config begun server streams history)
        (stepped : server.step event = some later) :
      Recorded config begun later (server.streamsAfter streams event) (history ++ server.dispatchedIn later event)

/-- What every state of a recorded run keeps -/
structure Explained (config : Config) (begun : Store) (server : Server) (streams : Nat → Bytes)
    (history : List (Nat × (RequestView × Response))) : Prop where
  orderly : Orderly config server.daemon server.world
  explained : Runs Store.Answers (history.map Prod.snd) begun (server.daemon.store server.world)
  formed : ∀ entry ∈ history, entry.2.2.WellFormed entry.2.1
  slots : ∀ index client socket, server.clients[index]? = some (client, socket) →
    Conversing (streams index) client socket ∧ socket.dispatched <:+ projection index history

variable {config : Config} {begun : Store} {server later : Server} {streams : Nat → Bytes}
  {history : List (Nat × (RequestView × Response))}

theorem Explained.accept (explained : Explained config begun server streams history) (stream : Bytes) (usable : Bool) :
    Explained config begun (server.accept stream usable)
      (server.streamsAfter streams (.accept stream usable)) history := by
  unfold Server.accept streamsAfter
  cases free : server.findFreeClient with
  | none => exact explained
  | some index =>
    cases usable with
    | false => exact explained
    | true =>
      refine ⟨explained.orderly.counted _, explained.explained, explained.formed, ?_⟩
      intro slot client socket there
      by_cases own : index = slot
      · subst own
        obtain ⟨inside, _⟩ := List.findIdx?_eq_some_iff_getElem.mp free
        simp only [↓reduceIte, List.getElem?_set_self inside, Option.some.injEq] at there
        simp only [↓reduceIte, Function.update_self]
        cases there
        exact ⟨.followed (accepted_tracks stream), List.nil_suffix⟩
      · simp only [↓reduceIte, List.getElem?_set_ne own] at there
        simp only [↓reduceIte, Function.update_of_ne (Ne.symm own)]
        exact explained.slots slot client socket there

theorem Explained.close (explained : Explained config begun server streams history) (index : Nat) :
    Explained config begun (server.close index) streams history := by
  unfold Server.close
  cases found : server.clients[index]? with
  | none => exact explained
  | some slot =>
    obtain ⟨client, socket⟩ := slot
    refine ⟨explained.orderly, explained.explained, explained.formed, ?_⟩
    intro other client' socket' there
    by_cases own : index = other
    · subst own
      have inside := (List.getElem?_eq_some_iff.mp found).1
      simp only [List.getElem?_set_self inside, Option.some.injEq] at there
      cases there
      obtain ⟨conversing, kept⟩ := explained.slots index client socket found
      exact ⟨conversing.close, kept⟩
    · simp only [List.getElem?_set_ne own] at there
      exact explained.slots other client' socket' there

theorem Explained.poll [Libm] (explained : Explained config begun server streams history) {index : Nat}
    {transfers : List Transfer} {answers : List Answer} (polled : server.poll index transfers answers = some later) :
    Explained config begun later streams (history ++ server.dispatchedIn later (.poll index transfers answers)) := by
  unfold Server.poll at polled
  unfold dispatchedIn
  cases found : server.clients[index]? with
  | none =>
    simp only [found] at polled
    obtain rfl := Option.some.inj polled
    simp only [dispatchedFor, found, Option.map_none, Option.getD_none, List.drop_nil, List.map_nil, List.append_nil]
    exact explained
  | some slot =>
    obtain ⟨client, socket⟩ := slot
    simp only [found] at polled
    split at polled
    · cases polled
    · rename_i last peer daemon world rest run
      obtain rfl := Option.some.inj polled
      have inside := (List.getElem?_eq_some_iff.mp found).1
      obtain ⟨conversing, kept⟩ := explained.slots index client socket found
      obtain ⟨orderly, entries, more, runs, formed⟩ := (wp_pollClient_carries transfers explained.orderly).returned run
      simp only at orderly more runs
      simp only [dispatchedFor, found, List.getElem?_set_self inside, Option.map_some, Option.getD_some, more,
        List.drop_left]
      refine ⟨orderly, ?_, ?_, ?_⟩
      · rw [List.map_append, map_snd_own]
        exact explained.explained.append runs
      · intro entry member
        rcases List.mem_append.mp member with old | new
        · exact explained.formed entry old
        · obtain ⟨answered, there, rfl⟩ := List.mem_map.mp new
          exact formed answered there
      · intro other client' socket' there
        rw [projection_append]
        by_cases own : index = other
        · subst own
          simp only [List.getElem?_set_self inside, Option.some.injEq] at there
          cases there
          refine ⟨(wp_pollClient_conversing transfers conversing).returned run, ?_⟩
          rw [projection_own, more]
          obtain ⟨front, same⟩ := kept
          exact ⟨front, by rw [← same, List.append_assoc]⟩
        · simp only [List.getElem?_set_ne own] at there
          rw [projection_other own, List.append_nil]
          exact explained.slots other client' socket' there

theorem Explained.step [Libm] (explained : Explained config begun server streams history) {event : Event}
    (stepped : server.step event = some later) :
    Explained config begun later (server.streamsAfter streams event) (history ++ server.dispatchedIn later event) := by
  cases event with
  | accept stream usable =>
    obtain rfl := Option.some.inj stepped
    rw [dispatchedIn, List.append_nil]
    exact explained.accept stream usable
  | close index =>
    obtain rfl := Option.some.inj stepped
    rw [dispatchedIn, List.append_nil]
    exact explained.close index
  | poll index transfers answers => exact explained.poll stepped
  | sync now force answers =>
    simp only [Server.step, Server.sync] at stepped
    split at stepped
    · cases stepped
    · rename_i set world rest run
      obtain rfl := Option.some.inj stepped
      obtain ⟨orderly, same⟩ := (wp_syncDirtyLogs_orderly explained.orderly now force).returned run
      rw [dispatchedIn, List.append_nil]
      refine ⟨orderly, ?_, explained.formed, explained.slots⟩
      simp only [same]
      exact explained.explained

theorem Recorded.explained [Libm] (recorded : Recorded config begun server streams history) :
    Explained config begun server streams history := by
  induction recorded with
  | start started distinct empty =>
    obtain ⟨place, unpooled⟩ := startup_inPlace started
    refine ⟨⟨place, ?_, empty, ?_, ?_⟩, .done _, List.forall_mem_nil _, ?_⟩
    · simpa [Server.start, Daemon.heldMaps, unpooled] using distinct
    · intro pooled holds
      simp [Server.start, unpooled] at holds
    · intro filter member given impossible
      cases impossible
    · intro index client socket there
      have member := List.mem_of_getElem? there
      simp only [Server.start, List.mem_replicate] at member
      obtain ⟨_, same⟩ := member
      cases same
      exact ⟨.closed rfl ⟨List.nil_prefix, List.nil_prefix⟩, List.nil_suffix⟩
  | next recorded stepped ih => exact ih.step stepped

/-- The server is a store to its clients. All requests, whichever clients they came from,
were answered as one store answers them one after another; the requests of a connection
are among them in their order, and the connection was sent the front of their answers. -/
theorem answers_linearize [Libm] (recorded : Recorded config begun server streams history) :
    Runs Store.Answers (history.map Prod.snd) begun (server.daemon.store server.world) ∧
    ∀ index client socket, server.clients[index]? = some (client, socket) →
      socket.dispatched <:+ projection index history ∧
      socket.dispatched.map (fun served => (served.1.header, served.1.body)) <+: requestFrames (streams index) ∧
      socket.outgoing <+: socket.dispatched.flatMap fun served => served.2.wire := by
  have explained := recorded.explained
  refine ⟨explained.explained, ?_⟩
  intro index client socket there
  obtain ⟨conversing, kept⟩ := explained.slots index client socket there
  exact ⟨kept, conversing.conversed.requests, conversing.conversed.sent⟩

/-- A state of the server with what its clients know of it -/
structure Record where
  server : Server
  streams : Nat → Bytes
  history : List (Nat × (RequestView × Response))

def Record.run [Libm] (record : Record) : List Event → Option Record
  | [] => some record
  | event :: events =>
    match record.server.step event with
    | none => none
    | some later =>
      Record.run ⟨later, record.server.streamsAfter record.streams event,
        record.history ++ record.server.dispatchedIn later event⟩ events

theorem Recorded.run [Libm] {events : List Event} {record last : Record}
    (recorded : Recorded config begun record.server record.streams record.history)
    (ran : record.run events = some last) :
    Recorded config begun last.server last.streams last.history := by
  induction events generalizing record with
  | nil =>
    obtain rfl := Option.some.inj ran
    exact recorded
  | cons event events ih =>
    simp only [Record.run] at ran
    split at ran
    · cases ran
    · rename_i later stepped
      exact ih (recorded.next stepped) ran

def createFields : Bytes :=
  storeU64 100 ++ storeDouble 0x3f847ae147ae147b ++ storeU32 3 ++ storeU16 1 ++ storeU16 0 ++ bytes "x"

theorem createFields_short : createFields.length < 2 ^ 32 := by decide

def createFrame : RequestView := frameOf 2 createFields createFields_short

def payloadFields : Bytes := storeU16 1 ++ storeU16 0 ++ storeU32 1 ++ bytes "x" ++ bytes "a"

theorem payloadFields_short : payloadFields.length < 2 ^ 32 := by decide

def addFrame : RequestView := frameOf 3 payloadFields payloadFields_short

def checkFrame : RequestView := frameOf 4 payloadFields payloadFields_short

def listFrame : RequestView := frameOf 8 [] (Nat.two_pow_pos 32)

/-- One client makes the filter x and adds a to it, while another asks for the list and for a. -/
def sharedEvents : List Event :=
  [.accept (createFrame.header.toBytes ++ createFrame.body ++ addFrame.header.toBytes ++ addFrame.body) true,
    .accept (listFrame.header.toBytes ++ checkFrame.header.toBytes ++ checkFrame.body) true,
    .poll 0 [.moved 16] [], .poll 0 [.moved 99] plenty, .poll 1 [.moved 16] plenty, .poll 0 [.moved 99] [],
    .poll 0 [.moved 16] [], .poll 1 [.moved 99, .interrupted, .moved 99] [], .poll 0 [.moved 99] plenty,
    .poll 1 [.moved 16, .again] [], .poll 1 [.moved 99] plenty]

def sharedHistory : List (Nat × (RequestView × Response)) :=
  [(0, createFrame, ⟨((Response.init 0 0).reset 2 7).header, []⟩),
    (1, listFrame, ⟨((Response.init 0 0).reset 8 7).header, [1, 0, 0, 0, 1, 0, 120]⟩),
    (0, addFrame, ⟨((Response.init 0 0).reset 3 7).header, [1]⟩),
    (1, checkFrame, ⟨((Response.init 0 0).reset 4 7).header, [1]⟩)]

theorem recorded_shared : ∃ server streams,
    @Recorded exactLibm demoRoots (emptyDaemon.store .empty) server streams sharedHistory ∧
    server.clients.length = 128 := by
  have started : startup .plain demoRoots .empty plenty = .returned (.ok emptyDaemon) .empty (plenty.drop 2) := rfl
  have ran : (@Record.run exactLibm ⟨start emptyDaemon .empty, fun _ => [], []⟩ sharedEvents).map
      (fun record => (record.history, record.server.clients.length)) = some (sharedHistory, 128) := by
    decide +kernel
  obtain ⟨record, ended, facts⟩ := Option.map_eq_some_iff.mp ran
  obtain ⟨history, slots⟩ := Prod.mk.inj facts
  have recorded := @Recorded.run demoRoots (emptyDaemon.store .empty) exactLibm sharedEvents
    ⟨start emptyDaemon .empty, fun _ => [], []⟩ record
    (@Recorded.start exactLibm demoRoots _ _ _ _ _ _ started .nil (List.forall_mem_nil _)) ended
  rw [history] at recorded
  exact ⟨record.server, record.streams, recorded, slots⟩

theorem answers_linearize_shared : ∃ server streams,
    @Recorded exactLibm demoRoots (emptyDaemon.store .empty) server streams sharedHistory ∧
    Runs Store.Answers (sharedHistory.map Prod.snd) (emptyDaemon.store .empty) (server.daemon.store server.world) := by
  obtain ⟨server, streams, recorded, _⟩ := recorded_shared
  exact ⟨server, streams, recorded, (@answers_linearize _ _ _ _ _ exactLibm recorded).1⟩

/-- What was acknowledged to one client is found by every client, until a DROP of the
filter is acknowledged. -/
theorem acknowledged_is_found [Libm] (recorded : Recorded config begun server streams history)
    {early middle late : List (Nat × (RequestView × Response))} {put look : Nat × (RequestView × Response)}
    (order : history = early ++ put :: (middle ++ look :: late)) {name payload : Bytes} {request asked : Request}
    (passed : put.2.1.request = some request) (puts : request.Puts name payload)
    (acknowledged : put.2.2.header.status = Status.ok.code)
    (undropped : ∀ entry ∈ middle, entry.2.1.request = some (.drop name) → entry.2.2.header.status ≠ Status.ok.code)
    (looks : look.2.1.request = some asked) (answered : look.2.2.header.status = Status.ok.code) :
    Reveals name payload asked look.2.2.body := by
  have runs := recorded.explained.explained
  rw [order, List.map_append, List.map_cons, List.map_append, List.map_cons] at runs
  obtain ⟨before, _, runs⟩ := runs.split
  cases runs with
  | next putting runs =>
    have stored := ((Store.answers_request passed).mp putting).puts puts acknowledged
    obtain ⟨between, quiet, runs⟩ := runs.split
    have kept : between.Holds name (digestPayload payload) := by
      apply quiet.preserves _ stored
      intro entry member store later answers holds
      obtain ⟨tagged, there, rfl⟩ := List.mem_map.mp member
      exact answers.holds holds (undropped tagged there)
    cases runs with
    | next looking runs => exact ((Store.answers_request looks).mp looking).finds kept answered

theorem acknowledged_is_found_shared : ∃ server streams,
    @Recorded exactLibm demoRoots (emptyDaemon.store .empty) server streams sharedHistory ∧
    Reveals (bytes "x") (bytes "a") (.check (bytes "x") (bytes "a")) [1] := by
  obtain ⟨server, streams, recorded, _⟩ := recorded_shared
  refine ⟨server, streams, recorded, ?_⟩
  exact @acknowledged_is_found _ _ _ _ _ exactLibm recorded (sharedHistory.take 2) [] []
    (0, addFrame, ⟨((Response.init 0 0).reset 3 7).header, [1]⟩)
    (1, checkFrame, ⟨((Response.init 0 0).reset 4 7).header, [1]⟩) rfl (bytes "x") (bytes "a")
    (.add (bytes "x") (bytes "a")) (.check (bytes "x") (bytes "a"))
      (by decide +kernel) .add rfl (List.forall_mem_nil _)
    (by decide +kernel) rfl

/-- The names that a LIST tells are those whose latest acknowledged CREATE or DROP was a
CREATE, or that the startup loaded; and NOT_FOUND is answered for all other names and for
no other reason. -/
theorem names_follow_history [Libm] (recorded : Recorded config begun server streams history)
    {early late : List (Nat × (RequestView × Response))} {look : Nat × (RequestView × Response)}
    (order : history = early ++ look :: late) :
    (look.2.1.header.opcode = 8 → look.2.2.header.status = Status.ok.code →
      ∃ names, decodeList look.2.2.body = some names ∧ names.Nodup ∧
        ∀ name, name ∈ names ↔ begun.standing (early.map Prod.snd) name = true) ∧
    (∀ request, look.2.1.request = some request → (look.2.2.header.status = Status.notFound.code ↔
      begun.standing (early.map Prod.snd) request.target = false ∧ ∀ fields, request ≠ .create fields)) ∧
    (∀ fields, look.2.1.request = some (.create fields) →
      (look.2.2.header.status = Status.ok.code → begun.standing (early.map Prod.snd) fields.name = false) ∧
      (look.2.2.header.status = Status.exists.code → begun.standing (early.map Prod.snd) fields.name = true)) := by
  have runs := recorded.explained.explained
  rw [order, List.map_append, List.map_cons] at runs
  obtain ⟨before, earlier, runs⟩ := runs.split
  have shown := fun name => (Store.isSome_of_runs earlier name).symm
  cases runs with
  | next looking runs =>
    refine ⟨?_, ?_, ?_⟩
    · intro opcode answered
      have other : parseRequest look.2.1.header.opcode look.2.1.body = none := by
        rw [opcode]
        rfl
      obtain ⟨names, decoded, distinct, members⟩ := ((Store.answers_other other).mp looking).lists opcode answered
      refine ⟨names, decoded, distinct, ?_⟩
      intro name
      rw [members, shown, Option.isSome_iff_ne_none]
    · intro request asked
      rw [((Store.answers_request asked).mp looking).missing, shown, Option.isSome_eq_false_iff,
        Option.isNone_iff_eq_none]
    · intro fields asked
      have serves := (Store.answers_request asked).mp looking
      constructor
      · intro answered
        rw [shown, Option.isSome_eq_false_iff, Option.isNone_iff_eq_none]
        have accepts := serves.accepts answered
        generalize look.2.2.body = body at accepts
        cases accepts with
        | create free => exact free
      · intro taken
        rw [shown, Option.isSome_iff_ne_none]
        exact serves.taken taken

theorem names_follow_history_shared : ∃ server streams,
    @Recorded exactLibm demoRoots (emptyDaemon.store .empty) server streams sharedHistory ∧
    ∃ names, decodeList [1, 0, 0, 0, 1, 0, 120] = some names ∧ names.Nodup ∧
      ∀ name, name ∈ names ↔ (emptyDaemon.store .empty).standing
        ((sharedHistory.take 1).map Prod.snd) name = true := by
  obtain ⟨server, streams, recorded, _⟩ := recorded_shared
  refine ⟨server, streams, recorded, ?_⟩
  exact (@names_follow_history _ _ _ _ _ exactLibm recorded (sharedHistory.take 1) (sharedHistory.drop 2)
    (1, listFrame, ⟨((Response.init 0 0).reset 8 7).header, [1, 0, 0, 0, 1, 0, 120]⟩) rfl).1 rfl rfl

end Server

end Bloomd
