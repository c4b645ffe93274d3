import Bloomd.Client
import Bloomd.ClientSemantics
import Bloomd.Startup

/-! The main loop of `daemon.c`: the table of clients around the daemon, and what can
happen to it between the startup and the end of the process. -/

namespace Bloomd

open CrashLogic

/-- `BLOOMD_MAX_CLIENTS` -/
def maxClients : Nat := 128

/-- The daemon with its table of clients. `abandoned` records the requests whose
response will never be complete: the dispatch failed, or the connection was closed
while the response was being written. -/
structure Server where
  daemon : Daemon
  clients : List (Client × Socket)
  world : World
  abandoned : Nat

namespace Server

/-- What `main` has when it begins to listen -/
def start (daemon : Daemon) (world : World) : Server :=
  ⟨daemon, List.replicate maxClients (.closed, ⟨[], [], []⟩), world, 0⟩

/-- `bloomd_find_free_client` -/
def findFreeClient (server : Server) : Option Nat :=
  server.clients.findIdx? fun slot => slot.1.state = .empty

/-- One turn of `bloomd_accept_ready`; `usable` tells whether `bloomd_set_nonblocking`
succeeded. The peer will send `stream`. -/
def accept (server : Server) (stream : Bytes) (usable : Bool) : Server :=
  match server.findFreeClient with
  | none => server
  | some index =>
    if usable then { server with
      clients := server.clients.set index (accepted stream)
      daemon := { server.daemon with stats := { server.daemon.stats with
        acceptedConnections := server.daemon.stats.acceptedConnections + 1 } } }
    else server

/-- A client is closed by an event of its socket or by `bloomd_close_timed_out_clients`. -/
def close (server : Server) (index : Nat) : Server :=
  match server.clients[index]? with
  | none => server
  | some (client, socket) => { server with
      clients := server.clients.set index (.closed, socket)
      abandoned := server.abandoned + if client.state = .writeResponse then 1 else 0 }

/-- Whether a turn of a client ended it with a request that was dispatched and not
answered in full -/
def lost (client later : Client) (socket after : Socket) : Bool :=
  later.state = .empty && (client.state = .writeResponse || socket.dispatched.length < after.dispatched.length)

/-- The main loop drives a client whose socket is ready. -/
def poll [Libm] (server : Server) (index : Nat) (transfers : List Transfer) (answers : List Answer) : Option Server :=
  match server.clients[index]? with
  | none => some server
  | some (client, socket) =>
    match pollClient client socket server.daemon transfers server.world answers with
    | .crashed _ => none
    | .returned (later, after, daemon) world _ => some { server with
        daemon
        clients := server.clients.set index (later, after)
        world
        abandoned := server.abandoned + if lost client later socket after then 1 else 0 }

/-- `bloomd_sync_dirty_logs` at the end of a turn of the main loop -/
def sync (server : Server) (now : Nat) (force : Bool) (answers : List Answer) : Option Server :=
  match syncDirtyLogs server.daemon.set now force server.world answers with
  | .crashed _ => none
  | .returned set world _ => some { server with daemon := { server.daemon with set }, world }

inductive Event where
  | accept (stream : Bytes) (usable : Bool)
  | close (index : Nat)
  | poll (index : Nat) (transfers : List Transfer) (answers : List Answer)
  | sync (now : Nat) (force : Bool) (answers : List Answer)

/-- One event; `none` if the process dies in the course of it. -/
def step [Libm] (server : Server) : Event → Option Server
  | .accept stream usable => some (server.accept stream usable)
  | .close index => some (server.close index)
  | .poll index transfers answers => server.poll index transfers answers
  | .sync now force answers => server.sync now force answers

/-- The states that a started daemon can come to -/
inductive Reached [Libm] (config : Config) : Server → Prop where
  | start {env : Env} {world loaded : World} {daemon : Daemon} {answers rest : List Answer}
      (started : startup env config world answers = .returned (.ok daemon) loaded rest) :
        Reached config (start daemon loaded)
  | next {server later : Server} {event : Event} (reached : Reached config server)
      (stepped : server.step event = some later) : Reached config later

end Server

end Bloomd
