import Bloomd.Startup

/-! Runs of the whole system: requests and syncs of a running daemon, crashes
between any two calls, clean shutdowns, restarts and reboots. -/

namespace Bloomd

open CrashLogic

/-- The machine and, while it runs, the daemon. `added` records for each name
the digests whose map update succeeded for an ADD or MADD since its CREATE. -/
structure State where
  world : World
  daemon : Option Daemon
  added : Bytes → List Digest

/-- Empty roots and no daemon -/
def State.initial : State := ⟨.empty, none, fun _ => []⟩

/-- The records that a reboot leaves of what was written after the last fsync:
for each log, the environment says which of them survive. -/
abbrev Surviving := Loc → List Bool

/-- The pieces of an unsynced tail: its records and, at the end, a torn one. -/
def tailPieces (tail : Bytes) : List Bytes :=
  (Framing.records digestSize tail).map Subtype.val ++
    [tail.drop (digestSize * (tail.length / digestSize))]

def survivors (tail : Bytes) (keep : List Bool) : Bytes :=
  (((tailPieces tail).zip keep).filterMap fun (piece, kept) => if kept then some piece else none).flatten

/-- What is left on disk is durable after the reboot. -/
def LogFile.reboot (log : LogFile) (keep : List Bool) : LogFile :=
  ⟨log.stable ++ survivors log.tail keep, []⟩

/-- The same keys with changed values. -/
def mapValues {α : Type} (change : Loc → α → α) (table : AList (fun _ : Loc => α)) :
    AList (fun _ : Loc => α) :=
  ⟨table.entries.map (.map id change), List.NodupKeys.map₂ change table.entries table.nodupKeys⟩

/-- A reboot drops every pin and may drop records that were not fsynced. -/
def World.reboot (world : World) (surviving : Surviving) : World :=
  { world with
    pins := ∅
    logs := mapValues (fun loc log => log.reboot (surviving loc)) world.logs }

inductive Action where
  | request (request : Request) (answers : List Answer)
  | sync (now : Nat) (force : Bool) (answers : List Answer)
  | shutdown (now : Nat) (answers : List Answer)
  | restart (env : Env) (config : Config) (pid : Nat) (answers : List Answer)
  | kill
  | reboot (surviving : Surviving)

/-- The digests that a request put into the map of the filter it names. -/
def addedBy (daemon : Daemon) (name : Bytes) (before after : World) : List Digest :=
  match (daemon.set.findN name).1.bind fun index => daemon.set.items[index]? with
  | some filter => (after.contents filter.mapFd).drop (before.contents filter.mapFd).length
  | none => []

/-- The ghost history after a request, crashed or answered. An incarnation
starts when CREATE puts new metadata in place. -/
def recordAdded (daemon : Daemon) (request : Request) (before after : World)
    (added : Bytes → List Digest) : Bytes → List Digest :=
  match request with
  | .add name _ | .madd name _ =>
    Function.update added name (added name ++ addedBy daemon name before after)
  | .create request =>
    let path := joined daemon.config.metaRoot request.name (bytes ".meta")
    if after.fileAt path = before.fileAt path then added
    else Function.update added request.name []
  | _ => added

def State.step [Libm] (state : State) : Action → State
  | .request request answers =>
    match state.daemon with
    | none => state
    | some daemon =>
      let stop := handle daemon request state.world answers
      ⟨stop.state, stop.value.map Prod.snd,
        recordAdded daemon request state.world stop.state state.added⟩
  | .sync now force answers =>
    match state.daemon with
    | none => state
    | some daemon =>
      let stop := syncDirtyLogs daemon.set now force state.world answers
      { state with
        world := stop.state
        daemon := stop.value.map fun set => { daemon with set } }
  | .shutdown now answers =>
    match state.daemon with
    | none => state
    | some daemon =>
      { state with world := (shutdown daemon now state.world answers).state, daemon := none }
  | .restart env config pid answers =>
    match state.daemon with
    | some _ => state
    | none =>
      let stop := startup env config { state.world with pid } answers
      { state with
        world := stop.state
        daemon := stop.value.bind Except.toOption }
  | .kill => { state with daemon := none }
  | .reboot surviving => { state with world := state.world.reboot surviving, daemon := none }

def State.run [Libm] (state : State) (actions : List Action) : State :=
  actions.foldl State.step state

/-- A small installation: one pin root, one metadata root, one filter -/
def demoRoots : Config := ⟨bytes "/p", bytes "/m", .always⟩

def demoName : Bytes := bytes "x"

def demoCreate : Request := .create ⟨demoName, 100, 0x3f847ae147ae147b, 3⟩

/-- Answers enough for any one request or startup of the small installation -/
def plenty : List Answer := List.replicate 40 .ok

end Bloomd
