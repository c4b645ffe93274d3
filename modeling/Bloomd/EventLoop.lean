import Bloomd.Server

/-! The main loop of `daemon.c` with its descriptors and its clock. Between two turns every
client is in its slot; a turn polls the sockets, takes in new connections, drives the clients
that are ready, closes the idle ones and syncs the logs. Times are in milliseconds. -/

namespace Bloomd

open CrashLogic

/-- `BLOOMD_REQ_TIMEOUT_MS` -/
def reqTimeoutMs : Nat := 5000

/-- `struct bloomd_client` with its descriptor, where `none` is -1 -/
structure Slot where
  client : Client
  socket : Socket
  fd : Option Nat
  lastActivity : Nat
  deriving DecidableEq, Repr

/-- What `main` starts with, and `bloomd_client_close` leaves; nobody reads the time of such a slot. -/
def Slot.empty (socket : Socket) : Slot := ⟨.closed, socket, none, 0⟩

/-- The state is not BLOOMD_CLIENT_EMPTY. -/
def Slot.connected (slot : Slot) : Bool := slot.client.state ≠ .empty

/-- The state of `main` while it listens. `opened` are the descriptors of sockets that the
process has, and `misused` counts the calls of `close` on one that it does not have. -/
structure Loop where
  daemon : Daemon
  slots : List Slot
  world : World
  listenFd : Nat
  opened : List Nat
  misused : Nat

/-- What one `accept` meets: a connection, over which the peer will send `stream`, with the
other descriptors that the process has `taken` by then; a signal; no more connections; or an
error. `usable` tells whether `bloomd_set_nonblocking` succeeded. -/
inductive Arrival where
  | connected (taken : List Nat) (stream : Bytes) (usable : Bool) (now : Nat)
  | interrupted
  | again
  | failed (errno : Errno)
  deriving DecidableEq, Repr

/-- When a connection was taken in -/
def Arrival.time : Arrival → Nat
  | .connected _ _ _ now => now
  | .interrupted | .again | .failed _ => 0

/-- What `poll` says of the socket of a client: POLLERR, POLLHUP or POLLNVAL, or else the event
that the client waits for; what its transfers meet, and the time after the last of them. -/
structure Readiness where
  broken : Bool
  ready : Bool
  transfers : List Transfer
  answers : List Answer
  now : Nat

/-- What a turn of the loop meets. A `poll` that a signal interrupts goes back to the test of
`bloomd_stop`. -/
inductive Wakeup where
  | interrupted
  | polled (listening : Bool) (arrivals : List Arrival) (readiness : Nat → Readiness) (expiry : Nat) (syncNow : Nat)
    (answers : List Answer)

/-- The descriptor that `accept` gives: the lowest that is not in use -/
def lowestFree (used : List Nat) : Nat :=
  ((List.range (used.length + 1)).find? fun fd => fd ∉ used).getD used.length

namespace Loop

/-- What `main` has when it begins to listen -/
def start (daemon : Daemon) (world : World) (listenFd : Nat) : Loop :=
  ⟨daemon, List.replicate maxClients (.empty ⟨[], [], []⟩), world, listenFd, [listenFd], 0⟩

/-- `close(2)` -/
def closeFd (loop : Loop) (fd : Nat) : Loop :=
  if fd ∈ loop.opened then { loop with opened := loop.opened.erase fd } else { loop with misused := loop.misused + 1 }

/-- `bloomd_client_close` -/
def closeClient (loop : Loop) (index : Nat) : Loop :=
  match loop.slots[index]? with
  | none => loop
  | some slot => { slot.fd.elim loop loop.closeFd with slots := loop.slots.set index (.empty slot.socket) }

/-- `bloomd_find_free_client` -/
def findFreeClient (loop : Loop) : Option Nat := loop.slots.findIdx? fun slot => slot.client.state = .empty

/-- `bloomd_client_init` in a slot, for a descriptor that is open, and the count of it -/
def initClient (loop : Loop) (index fd : Nat) (stream : Bytes) (now : Nat) : Loop :=
  { loop with
    slots := loop.slots.set index ⟨(accepted stream).1, (accepted stream).2, some fd, now⟩
    daemon := { loop.daemon with stats := { loop.daemon.stats with
      acceptedConnections := loop.daemon.stats.acceptedConnections + 1 } } }

/-- `bloomd_accept_ready` -/
def acceptReady : List Arrival → Loop → Loop
  | [], loop => loop
  | .interrupted :: arrivals, loop => acceptReady arrivals loop
  | .again :: _, loop => loop
  | .failed _ :: _, loop => loop
  | .connected taken stream usable now :: arrivals, loop =>
    let fd := lowestFree (loop.opened ++ taken)
    let loop := { loop with opened := fd :: loop.opened }
    match loop.findFreeClient with
    | none => acceptReady arrivals (loop.closeFd fd)
    | some index =>
      if usable then acceptReady arrivals (loop.initClient index fd stream now)
      else acceptReady arrivals (loop.closeFd fd)

/-- The drives of a client whose socket is ready -/
def driveClient [Libm] (client : Client) (socket : Socket) (daemon : Daemon) (transfers : List Transfer) :
    Sys (Except Errno Bool × Client × Socket × Daemon) :=
  match client.state with
  | .writeResponse => pure (driveWrite client socket daemon transfers)
  | _ => do
    let (code, client, socket, daemon) ← driveRead client socket daemon transfers
    if code = .ok true ∧ client.state = .writeResponse then pure (driveWrite client socket daemon transfers)
    else pure (code, client, socket, daemon)

/-- Whether any transfer moved bytes between the socket and its peer -/
def moved (before after : Socket) : Bool :=
  before.incoming.length ≠ after.incoming.length || before.outgoing.length ≠ after.outgoing.length

/-- The body of the loop over the clients that were polled; `none` if the process dies. -/
def serveClient [Libm] (loop : Loop) (index : Nat) (readiness : Readiness) : Option Loop :=
  match loop.slots[index]? with
  | none => some loop
  | some slot =>
    if slot.client.state = .empty then some loop
    else if readiness.broken then some (loop.closeClient index)
    else if readiness.ready then
      match driveClient slot.client slot.socket loop.daemon readiness.transfers loop.world readiness.answers with
      | .crashed _ => none
      | .returned (code, client, socket, daemon) world _ =>
        let lastActivity := if moved slot.socket socket then readiness.now else slot.lastActivity
        let loop := { loop with daemon, world, slots := loop.slots.set index ⟨client, socket, slot.fd, lastActivity⟩ }
        match code with
        | .error _ => some (loop.closeClient index)
        | .ok _ => some loop
    else some loop

/-- The clients that `poll` is asked about -/
def polled (loop : Loop) : List Nat :=
  (List.range loop.slots.length).filter fun index => loop.slots[index]?.any Slot.connected

def serveClients [Libm] (readiness : Nat → Readiness) : List Nat → Loop → Option Loop
  | [], loop => some loop
  | index :: indices, loop =>
    match loop.serveClient index (readiness index) with
    | none => none
    | some loop => serveClients readiness indices loop

/-- The test of `bloomd_close_timed_out_clients`, in 64 bits -/
def timedOut (slot : Slot) (now : Nat) : Bool :=
  slot.connected && reqTimeoutMs < (now + 2 ^ 64 - slot.lastActivity) % 2 ^ 64

/-- The clients that pass a test are closed, in order. -/
def closeWhere (test : Slot → Bool) : List Nat → Loop → Loop
  | [], loop => loop
  | index :: indices, loop =>
    closeWhere test indices (if loop.slots[index]?.any test then loop.closeClient index else loop)

/-- `bloomd_close_timed_out_clients` -/
def closeTimedOutClients (now : Nat) (loop : Loop) : Loop :=
  closeWhere (timedOut · now) (List.range loop.slots.length) loop

/-- `bloomd_sync_dirty_logs` on the filters of the loop -/
def syncLogs (loop : Loop) (now : Nat) (force : Bool) (answers : List Answer) : Option Loop :=
  match syncDirtyLogs loop.daemon.set now force loop.world answers with
  | .crashed _ => none
  | .returned set world _ => some { loop with daemon := { loop.daemon with set }, world }

/-- One turn of the loop in `main`; `none` if the process dies in the course of it. -/
def turn [Libm] (loop : Loop) : Wakeup → Option Loop
  | .interrupted => some loop
  | .polled listening arrivals readiness expiry syncNow answers =>
    match serveClients readiness loop.polled (if listening then acceptReady arrivals loop else loop) with
    | none => none
    | some loop => (closeTimedOutClients expiry loop).syncLogs syncNow false answers

def run [Libm] : List Wakeup → Loop → Option Loop
  | [], loop => some loop
  | turn :: turns, loop =>
    match loop.turn turn with
    | none => none
    | some loop => run turns loop

/-- The end of `main`, after `bloomd_stop` was set or `poll` failed. The unlink of the socket
is left out. -/
def shutdown (loop : Loop) (now : Nat) (answers : List Answer) : Option Loop :=
  match loop.syncLogs now true answers with
  | none => none
  | some loop => some ((closeWhere Slot.connected (List.range loop.slots.length) loop).closeFd loop.listenFd)

end Loop

end Bloomd
