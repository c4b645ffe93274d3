import Bloomd.EventLoop
import Bloomd.ServerHistory
import Mathlib.Data.List.Perm.Basic

/-! The main loop implements the server: each of its turns is a few events of the server, so
that what is known of every run of the server is known of every run of `main`. -/

namespace Bloomd

open CrashLogic Prog

section Drives

variable {client later : Client} {socket peer : Socket} {daemon last : Daemon} {world after : World}
  {transfers : List Transfer} {answers rest : List Answer} {code : Except Errno Bool}

theorem pollClient_eq [Libm] (state : client.state ≠ .empty) : pollClient client socket daemon transfers =
    Loop.driveClient client socket daemon transfers >>= fun result => pure (closeFailed result) := by
  unfold pollClient Loop.driveClient
  cases known : client.state with
  | empty => exact absurd known state
  | writeResponse => rfl
  | readHeader | readBody =>
    simp only
    rw [bind_assoc]
    congr 1
    funext result
    obtain ⟨code, later, peer, last⟩ := result
    simp only
    split <;> rfl

theorem wp_dispatchRequest_open [Libm] (body : Bytes) (state : client.state ≠ .empty) :
    wp (dispatchRequest client socket daemon body) (fun result _ => result.2.1.state ≠ .empty)
      (fun _ => True) world := by
  unfold dispatchRequest
  split
  · apply wp_bind
    apply (wp_trivial _).mono _ fun _ held => held
    rintro ⟨result, response, last⟩ after _
    cases result with
    | error errno => exact (wp_pure _).mpr state
    | ok done => exact (wp_pure _).mpr ClientState.noConfusion
  · exact (wp_pure _).mpr state

theorem wp_driveRead_open [Libm] (state : client.state ≠ .empty) :
    wp (driveRead client socket daemon transfers) (fun result _ => result.2.1.state ≠ .empty)
      (fun _ => True) world := by
  unfold driveRead
  split
  · simp only
    split
    · exact (wp_pure _).mpr state
    · exact (wp_pure _).mpr state
    · split
      · exact (wp_pure _).mpr state
      · split
        · exact wp_dispatchRequest_open _ state
        · exact (wp_pure _).mpr ClientState.noConfusion
  · simp only
    split
    · exact (wp_pure _).mpr state
    · exact (wp_pure _).mpr state
    · exact wp_dispatchRequest_open _ state
  · exact wp_dispatchRequest_open _ state

theorem driveWrite_open (state : client.state ≠ .empty) :
    (driveWrite client socket daemon transfers).2.1.state ≠ .empty := by
  unfold driveWrite
  simp only
  split
  · exact state
  · exact state
  · exact ClientState.noConfusion

/-- The drives leave a client in one of the three other states. -/
theorem wp_driveClient_open [Libm] (state : client.state ≠ .empty) :
    wp (Loop.driveClient client socket daemon transfers) (fun result _ => result.2.1.state ≠ .empty) (fun _ => True)
      world := by
  unfold Loop.driveClient
  split
  · exact (wp_pure _).mpr (driveWrite_open state)
  · apply wp_bind
    apply (wp_driveRead_open state).mono _ fun _ held => held
    rintro ⟨code, later, peer, last⟩ after kept
    simp only
    split
    · exact (wp_pure _).mpr (driveWrite_open kept)
    · exact (wp_pure _).mpr kept

end Drives

namespace Loop

section Slots

variable {loop : Loop} {index : Nat} {slot : Slot}

theorem closeFd_same (loop : Loop) (fd : Nat) :
    (loop.closeFd fd).slots = loop.slots ∧ (loop.closeFd fd).daemon = loop.daemon ∧
    (loop.closeFd fd).world = loop.world ∧ (loop.closeFd fd).listenFd = loop.listenFd := by
  unfold closeFd
  split
  · exact ⟨rfl, rfl, rfl, rfl⟩
  · exact ⟨rfl, rfl, rfl, rfl⟩

/-- What `bloomd_client_close` leaves of the clients and the rest -/
theorem closeClient_some (found : loop.slots[index]? = some slot) :
    (loop.closeClient index).slots = loop.slots.set index (.empty slot.socket) ∧
    (loop.closeClient index).daemon = loop.daemon ∧ (loop.closeClient index).world = loop.world ∧
    (loop.closeClient index).listenFd = loop.listenFd := by
  simp only [closeClient, found, true_and]
  cases slot.fd with
  | none => exact ⟨rfl, rfl, rfl⟩
  | some fd => exact (closeFd_same loop fd).2

theorem closeClient_none (missing : loop.slots[index]? = none) : loop.closeClient index = loop := by
  unfold closeClient
  rw [missing]

theorem closeClient_other {other : Nat} (different : index ≠ other) :
    (loop.closeClient index).slots[other]? = loop.slots[other]? := by
  cases found : loop.slots[index]? with
  | none => rw [closeClient_none found]
  | some slot => rw [(closeClient_some found).1, List.getElem?_set_ne different]

theorem closeClient_own (found : loop.slots[index]? = some slot) :
    (loop.closeClient index).slots[index]? = some (.empty slot.socket) := by
  rw [(closeClient_some found).1, List.getElem?_set_self (List.getElem?_eq_some_iff.mp found).1]

/-- What becomes of each slot when the clients that pass a test are closed -/
theorem closeWhere_slot (test : Slot → Bool) (indices : List Nat) :
    ∀ (loop : Loop) (other : Nat), (closeWhere test indices loop).slots[other]? =
      loop.slots[other]?.map fun slot => if other ∈ indices ∧ test slot = true then .empty slot.socket else slot := by
  induction indices with
  | nil =>
    intro loop other
    simp [closeWhere]
  | cons index indices ih =>
    intro loop other
    rw [closeWhere, ih]
    by_cases own : index = other
    · subst own
      cases found : loop.slots[index]? with
      | none => simp [found]
      | some slot =>
        cases passes : test slot with
        | true => simp [passes, closeClient_own found, Slot.empty]
        | false => simp [found, passes]
    · have same : (if loop.slots[index]?.any test then loop.closeClient index else loop).slots[other]? =
          loop.slots[other]? := by
        split
        · exact closeClient_other own
        · rfl
      rw [same]
      simp [Ne.symm own]

theorem closeWhere_listenFd (test : Slot → Bool) (indices : List Nat) :
    ∀ loop : Loop, (closeWhere test indices loop).listenFd = loop.listenFd := by
  induction indices with
  | nil => exact fun loop => rfl
  | cons index indices ih =>
    intro loop
    rw [closeWhere, ih]
    split
    · cases found : loop.slots[index]? with
      | none => rw [closeClient_none found]
      | some slot => exact (closeClient_some found).2.2.2
    · rfl

/-- After the test nobody is left who passes it. -/
theorem closeWhere_clears {test : Slot → Bool} (idle : ∀ socket, test (.empty socket) = false) (loop : Loop) :
    ∀ slot ∈ (closeWhere test (List.range loop.slots.length) loop).slots, test slot = false := by
  intro slot member
  obtain ⟨index, there⟩ := List.getElem?_of_mem member
  rw [closeWhere_slot] at there
  obtain ⟨before, found, same⟩ := Option.map_eq_some_iff.mp there
  have inside := List.mem_range.mpr (List.getElem?_eq_some_iff.mp found).1
  rw [← same]
  cases passes : test before with
  | true => simp [inside, idle]
  | false => simp [passes]

end Slots

theorem lowestFree_notMem (used : List Nat) : lowestFree used ∉ used := by
  unfold lowestFree
  cases found : (List.range (used.length + 1)).find? fun fd => fd ∉ used with
  | some fd => simpa using List.find?_some found
  | none =>
    exfalso
    have inside : List.range (used.length + 1) ⊆ used := by
      intro fd member
      simpa using List.find?_eq_none.mp found fd member
    have bound := (List.subperm_of_subset List.nodup_range inside).length_le
    rw [List.length_range] at bound
    omega

section Phases

variable {loop last : Loop} {index : Nat} {kept : Loop → Prop}

/-- A connection is refused and closed again, or a free client is given its descriptor, which
was not in use. -/
theorem acceptReady_keeps {arrivals : List Arrival}
    (refuses : ∀ {loop : Loop} (fd : Nat), kept loop →
      kept (Loop.closeFd { loop with opened := fd :: loop.opened } fd))
    (admits : ∀ {loop : Loop} {index fd now : Nat} {taken : List Nat} {stream : Bytes},
      .connected taken stream true now ∈ arrivals → fd ∉ loop.opened → loop.findFreeClient = some index → kept loop →
      kept (Loop.initClient { loop with opened := fd :: loop.opened } index fd stream now)) :
    ∀ {loop : Loop}, kept loop → kept (acceptReady arrivals loop) := by
  induction arrivals with
  | nil => exact fun held => held
  | cons arrival arrivals ih =>
    intro loop held
    replace ih := @ih fun member => admits (List.mem_cons_of_mem _ member)
    cases arrival with
    | interrupted => exact ih held
    | again => exact held
    | failed errno => exact held
    | connected taken stream usable now =>
      have fresh : lowestFree (loop.opened ++ taken) ∉ loop.opened :=
        fun member => lowestFree_notMem (loop.opened ++ taken) (List.mem_append_left _ member)
      simp only [acceptReady]
      split
      · exact ih (refuses _ held)
      · rename_i index free
        cases usable with
        | true => exact ih (admits List.mem_cons_self fresh free held)
        | false => exact ih (refuses _ held)

/-- The loop after the drives of one client -/
def driven (loop : Loop) (index : Nat) (slot : Slot) (client : Client) (socket : Socket) (daemon : Daemon)
    (world : World) (now : Nat) : Loop :=
  { loop with
    daemon, world
    slots :=
      loop.slots.set index ⟨client, socket, slot.fd, if moved slot.socket socket then now else slot.lastActivity⟩ }

/-- When the turn of a client comes nothing happens to it, or it is closed, or it is driven. -/
theorem serveClient_cases [Libm] {readiness : Readiness} (served : loop.serveClient index readiness = some last) :
    last = loop ∨ last = loop.closeClient index ∨
    ∃ slot code client socket daemon world rest, loop.slots[index]? = some slot ∧ slot.client.state ≠ .empty ∧
      driveClient slot.client slot.socket loop.daemon readiness.transfers loop.world readiness.answers =
        .returned (code, client, socket, daemon) world rest ∧
      ((∃ full, code = .ok full ∧ last = loop.driven index slot client socket daemon world readiness.now) ∨
        ∃ errno, code = .error errno ∧
          last = (loop.driven index slot client socket daemon world readiness.now).closeClient index) := by
  unfold serveClient at served
  split at served
  · exact .inl (Option.some.inj served).symm
  rename_i slot found
  split at served
  · exact .inl (Option.some.inj served).symm
  rename_i state
  split at served
  · exact .inr (.inl (Option.some.inj served).symm)
  split at served
  rotate_left
  · exact .inl (Option.some.inj served).symm
  split at served
  · cases served
  rename_i code client socket daemon world rest run
  refine .inr (.inr ⟨slot, code, client, socket, daemon, world, rest, found, state, run, ?_⟩)
  cases code with
  | ok full => exact .inl ⟨full, rfl, (Option.some.inj served).symm⟩
  | error errno => exact .inr ⟨errno, rfl, (Option.some.inj served).symm⟩

theorem serveClients_keeps [Libm] {readiness : Nat → Readiness}
    (serves : ∀ {loop last : Loop} {index : Nat}, kept loop → loop.serveClient index (readiness index) = some last →
      kept last)
    (indices : List Nat) : ∀ {loop : Loop}, kept loop → serveClients readiness indices loop = some last →
      kept last := by
  induction indices with
  | nil =>
    intro loop held served
    obtain rfl := Option.some.inj served
    exact held
  | cons index indices ih =>
    intro loop held served
    simp only [serveClients] at served
    split at served
    · cases served
    · rename_i middle stepped
      exact ih (serves held stepped) served

theorem closeWhere_keeps (closes : ∀ {loop : Loop} (index : Nat), kept loop → kept (loop.closeClient index))
    (test : Slot → Bool) (indices : List Nat) : ∀ {loop : Loop}, kept loop → kept (closeWhere test indices loop) := by
  induction indices with
  | nil => exact fun held => held
  | cons index indices ih =>
    intro loop held
    rw [closeWhere]
    split
    · exact ih (closes index held)
    · exact ih held

theorem syncLogs_some {now : Nat} {force : Bool} {answers : List Answer}
    (synced : loop.syncLogs now force answers = some last) :
    ∃ set world rest, syncDirtyLogs loop.daemon.set now force loop.world answers = .returned set world rest ∧
      last = { loop with daemon := { loop.daemon with set }, world } := by
  unfold syncLogs at synced
  split at synced
  · cases synced
  · rename_i set world rest run
    exact ⟨set, world, rest, run, (Option.some.inj synced).symm⟩

/-- What every phase of a turn keeps -/
structure Kept [Libm] (kept : Loop → Prop) : Prop where
  accepts : ∀ {loop : Loop} (arrivals : List Arrival), kept loop → kept (acceptReady arrivals loop)
  serves : ∀ {loop last : Loop} {index : Nat} {readiness : Readiness}, kept loop →
    loop.serveClient index readiness = some last → kept last
  closes : ∀ {loop : Loop} (index : Nat), kept loop → kept (loop.closeClient index)
  syncs : ∀ {loop last : Loop} {now : Nat} {force : Bool} {answers : List Answer}, kept loop →
    loop.syncLogs now force answers = some last → kept last

theorem Kept.turn [Libm] (phases : Kept kept) (held : kept loop) {wakeup : Wakeup}
    (turned : loop.turn wakeup = some last) : kept last := by
  cases wakeup with
  | interrupted =>
    obtain rfl := Option.some.inj turned
    exact held
  | polled listening arrivals readiness expiry syncNow answers =>
    simp only [Loop.turn] at turned
    split at turned
    · cases turned
    · rename_i middle served
      have accepted : kept (if listening then acceptReady arrivals loop else loop) := by
        split
        · exact phases.accepts arrivals held
        · exact held
      have driven := serveClients_keeps phases.serves loop.polled accepted served
      exact phases.syncs (closeWhere_keeps phases.closes _ _ driven) turned

theorem Kept.run [Libm] (phases : Kept kept) {turns : List Wakeup} : ∀ {loop : Loop}, kept loop →
    loop.run turns = some last → kept last := by
  induction turns with
  | nil =>
    intro loop held ran
    obtain rfl := Option.some.inj ran
    exact held
  | cons wakeup turns ih =>
    intro loop held ran
    simp only [Loop.run] at ran
    split at ran
    · cases ran
    · rename_i middle turned
      exact ih (phases.turn held turned) ran

/-- The end of `main` before it closes the listening socket -/
theorem Kept.shutdown [Libm] (phases : Kept kept) (held : kept loop) {now : Nat} {answers : List Answer}
    (ended : loop.shutdown now answers = some last) :
    ∃ middle : Loop, last = middle.closeFd middle.listenFd ∧ kept middle ∧
      ∀ slot ∈ middle.slots, slot.connected = false := by
  unfold Loop.shutdown at ended
  split at ended
  · cases ended
  · rename_i middle synced
    refine ⟨closeWhere Slot.connected (List.range middle.slots.length) middle, ?_, ?_, ?_⟩
    · rw [closeWhere_listenFd]
      exact (Option.some.inj ended).symm
    · exact closeWhere_keeps phases.closes _ _ (phases.syncs held synced)
    · exact closeWhere_clears (fun _ => rfl) middle

end Phases

/-- The loop is the server with descriptors and times. -/
structure Matches (loop : Loop) (server : Server) : Prop where
  daemon : server.daemon = loop.daemon
  clients : server.clients = loop.slots.map fun slot => (slot.client, slot.socket)
  world : server.world = loop.world

/-- The loop matches a recorded run of the server. -/
def Implements [Libm] (config : Config) (begun : Store) (loop : Loop) : Prop :=
  ∃ server streams history, Server.Recorded config begun server streams history ∧ loop.Matches server

section Refinement

variable {config : Config} {begun : Store} {loop last : Loop} {server : Server}

theorem Matches.slot (like : loop.Matches server) (index : Nat) :
    server.clients[index]? = loop.slots[index]?.map fun slot => (slot.client, slot.socket) := by
  rw [like.clients, List.getElem?_map]

theorem Matches.findFreeClient (like : loop.Matches server) : server.findFreeClient = loop.findFreeClient := by
  rw [Server.findFreeClient, like.clients, List.findIdx?_map]
  rfl

theorem Matches.closeFd (like : loop.Matches server) (fd : Nat) : (loop.closeFd fd).Matches server := by
  obtain ⟨slots, daemon, world, _⟩ := closeFd_same loop fd
  exact ⟨by rw [daemon, like.daemon], by rw [slots, like.clients], by rw [world, like.world]⟩

theorem Matches.closeClient (like : loop.Matches server) (index : Nat) :
    (loop.closeClient index).Matches (server.close index) := by
  unfold Server.close
  rw [like.slot]
  cases found : loop.slots[index]? with
  | none =>
    rw [closeClient_none found]
    exact like
  | some slot =>
    obtain ⟨slots, daemon, world, _⟩ := closeClient_some found
    refine ⟨by rw [daemon]; exact like.daemon, ?_, by rw [world]; exact like.world⟩
    rw [slots, List.map_set]
    simp only [Option.map_some, like.clients]
    rfl

theorem Implements.closeFd [Libm] (implements : loop.Implements config begun) (fd : Nat) :
    (loop.closeFd fd).Implements config begun := by
  obtain ⟨server, streams, history, recorded, like⟩ := implements
  exact ⟨server, streams, history, recorded, like.closeFd fd⟩

theorem Implements.closeClient [Libm] (implements : loop.Implements config begun) (index : Nat) :
    (loop.closeClient index).Implements config begun := by
  obtain ⟨server, streams, history, recorded, like⟩ := implements
  have closing := @Server.Recorded.next _ _ _ _ _ _ _ (.close index) recorded rfl
  exact ⟨_, _, _, closing, like.closeClient index⟩

theorem Implements.admit [Libm] (implements : loop.Implements config begun) {index : Nat}
    (free : loop.findFreeClient = some index) (fd : Nat) (stream : Bytes) (now : Nat) :
    (Loop.initClient { loop with opened := fd :: loop.opened } index fd stream now).Implements config begun := by
  obtain ⟨server, streams, history, recorded, like⟩ := implements
  have accepting := @Server.Recorded.next _ _ _ _ _ _ _ (.accept stream true) recorded rfl
  have chosen : server.findFreeClient = some index := like.findFreeClient.trans free
  refine ⟨_, _, _, accepting, ?_⟩
  simp only [Server.accept, chosen, ↓reduceIte]
  refine ⟨?_, ?_, like.world⟩
  · simp only [initClient, like.daemon]
  · simp only [initClient, like.clients, List.map_set]

theorem Implements.refuse [Libm] (implements : loop.Implements config begun) (fd : Nat) :
    (Loop.closeFd { loop with opened := fd :: loop.opened } fd).Implements config begun := by
  obtain ⟨server, streams, history, recorded, like⟩ := implements
  have opened : Matches { loop with opened := fd :: loop.opened } server := ⟨like.daemon, like.clients, like.world⟩
  exact ⟨server, streams, history, recorded, opened.closeFd fd⟩

/-- A drive of the loop is a poll of the server, which closes the client itself when it fails. -/
theorem Implements.serveClient [Libm] (implements : loop.Implements config begun) {index : Nat} {readiness : Readiness}
    (served : loop.serveClient index readiness = some last) : last.Implements config begun := by
  rcases serveClient_cases served with rfl | rfl |
    ⟨slot, code, client, socket, daemon, world, rest, found, state, run, ends⟩
  · exact implements
  · exact implements.closeClient index
  · obtain ⟨server, streams, history, recorded, like⟩ := implements
    have polled : pollClient slot.client slot.socket loop.daemon readiness.transfers loop.world readiness.answers =
        .returned (closeFailed (code, client, socket, daemon)) world rest := by
      rw [pollClient_eq state, bind_apply, run]
      rfl
    have there : server.clients[index]? = some (slot.client, slot.socket) := by
      rw [like.slot, found]
      rfl
    have stepped : ∃ reached, server.step (.poll index readiness.transfers readiness.answers) = some reached ∧
        reached.daemon = (closeFailed (code, client, socket, daemon)).2.2 ∧ reached.world = world ∧
        reached.clients = server.clients.set index
          ((closeFailed (code, client, socket, daemon)).1, (closeFailed (code, client, socket, daemon)).2.1) := by
      simp only [Server.step, Server.poll, there, like.daemon, like.world, polled]
      exact ⟨_, rfl, rfl, rfl, rfl⟩
    obtain ⟨reached, event, same, after, slots⟩ := stepped
    refine ⟨reached, _, _, recorded.next event, ?_⟩
    rw [like.clients] at slots
    rcases ends with ⟨full, rfl, rfl⟩ | ⟨errno, rfl, rfl⟩
    · refine ⟨same, ?_, after⟩
      rw [slots, driven, List.map_set]
      rfl
    · have inside := (List.getElem?_eq_some_iff.mp found).1
      obtain ⟨closed, sameDaemon, sameWorld, _⟩ := @closeClient_some
        (loop.driven index slot client socket daemon world readiness.now) index _ (List.getElem?_set_self inside)
      refine ⟨by rw [sameDaemon]; exact same, ?_, by rw [sameWorld]; exact after⟩
      rw [slots, closed, driven, List.set_set, List.map_set]
      rfl

theorem Implements.syncLogs [Libm] (implements : loop.Implements config begun) {now : Nat} {force : Bool}
    {answers : List Answer} (synced : loop.syncLogs now force answers = some last) : last.Implements config begun := by
  obtain ⟨server, streams, history, recorded, like⟩ := implements
  obtain ⟨set, world, rest, run, rfl⟩ := syncLogs_some synced
  have stepped : server.step (.sync now force answers) =
      some { server with daemon := { server.daemon with set }, world } := by
    simp only [Server.step, Server.sync, like.daemon, like.world, run]
  refine ⟨_, _, _, recorded.next stepped, ?_⟩
  exact ⟨by rw [like.daemon], like.clients, rfl⟩

theorem implements_kept [Libm] (config : Config) (begun : Store) : Kept (Implements config begun) where
  accepts _ implements := acceptReady_keeps (fun fd held => held.refuse fd)
    (fun _ _ free held => held.admit free _ _ _) implements
  serves implements served := implements.serveClient served
  closes index implements := implements.closeClient index
  syncs implements synced := implements.syncLogs synced

end Refinement

/-- A client that waits for nothing -/
def quiet : Readiness := ⟨false, false, [], [], 0⟩

/-- One client makes the filter x while another stays silent, is closed for it, and comes back
over the same descriptor. -/
def demoTurns : List Wakeup :=
  [.polled true [.connected [0, 1, 2] (Server.createFrame.header.toBytes ++ Server.createFrame.body) true 100,
    .interrupted,
      .connected [0, 1, 2] [] true 100, .again] (fun _ => quiet) 100 100 [],
    .interrupted,
    .polled false [] (fun index => if index = 0 then ⟨false, true, [.moved 16], [], 3000⟩ else quiet) 3000 3000 [],
    .polled false [] (fun index => if index = 0 then ⟨false, true, [.moved 99], plenty, 5050⟩ else quiet) 5101 5101 [],
    .polled true [.connected [0, 1, 2] [] true 5200, .again]
      (fun index => if index = 0 then ⟨false, true, [.moved 99], [], 5150⟩ else quiet) 5200 5200 []]

/-- What the connections of the demonstration come to -/
def demoEnd : Loop → List Nat × Option Bytes :=
  fun loop => (loop.opened, loop.slots[0]?.map fun slot => slot.socket.outgoing)

theorem ran_demo : ∃ loop last, @run exactLibm demoTurns (start emptyDaemon .empty 3) = some loop ∧
    demoEnd loop = ([5, 4, 3], some [66, 76, 77, 49, 1, 2, 1, 0, 7, 0, 0, 0, 0, 0, 0, 0]) ∧
    loop.shutdown 5300 plenty = some last := by
  have ran : (@run exactLibm demoTurns (start emptyDaemon .empty 3)).map
      (fun loop => (demoEnd loop, (loop.shutdown 5300 plenty).isSome)) =
      some (([5, 4, 3], some [66, 76, 77, 49, 1, 2, 1, 0, 7, 0, 0, 0, 0, 0, 0, 0]), true) := by
    decide +kernel
  obtain ⟨loop, reached, facts⟩ := Option.map_eq_some_iff.mp ran
  obtain ⟨same, ended⟩ := Prod.mk.inj facts
  obtain ⟨last, closed⟩ := Option.isSome_iff_exists.mp ended
  exact ⟨loop, last, reached, same, closed⟩

section Main

variable {env : Env} {config : Config} {world loaded : World} {daemon : Daemon} {answers rest : List Answer}
  {listenFd : Nat} {turns : List Wakeup} {loop : Loop}

/-- Every run of the main loop, and its end, is a run of the server. -/
theorem main_loop_implements_server [Libm]
    (started : startup env config world answers = .returned (.ok daemon) loaded rest)
    (distinct : (daemon.set.items.map Filter.mapFd).Nodup)
    (empty : ∀ filter ∈ daemon.set.items, filter.metadata.hasData = false → loaded.contents filter.mapFd = [])
    (ran : (start daemon loaded listenFd).run turns = some loop) :
    loop.Implements config (daemon.store loaded) ∧
    ∀ now outcomes last, loop.shutdown now outcomes = some last → last.Implements config (daemon.store loaded) := by
  have begun : (start daemon loaded listenFd).Implements config (daemon.store loaded) := by
    refine ⟨_, _, _, .start started distinct empty, rfl, ?_, rfl⟩
    exact List.map_replicate.symm
  have implements := (implements_kept config _).run begun ran
  refine ⟨implements, ?_⟩
  intro now outcomes last ended
  obtain ⟨middle, rfl, held, _⟩ := (implements_kept config _).shutdown implements ended
  exact held.closeFd _

theorem main_loop_implements_server_demo : ∃ loop, @run exactLibm demoTurns (start emptyDaemon .empty 3) = some loop ∧
    demoEnd loop = ([5, 4, 3], some [66, 76, 77, 49, 1, 2, 1, 0, 7, 0, 0, 0, 0, 0, 0, 0]) ∧
    @Implements exactLibm demoRoots (emptyDaemon.store .empty) loop := by
  have started : startup .plain demoRoots .empty plenty = .returned (.ok emptyDaemon) .empty (plenty.drop 2) := rfl
  obtain ⟨loop, last, ran, same, _⟩ := ran_demo
  have implements := @main_loop_implements_server _ _ _ _ _ _ _ _ _ _ exactLibm started .nil
    (List.forall_mem_nil _) ran
  exact ⟨loop, ran, same, implements.1⟩

end Main

end Loop

end Bloomd
